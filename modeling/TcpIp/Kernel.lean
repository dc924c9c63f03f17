import Mathlib.Data.Int.Notation
import Mathlib.Data.List.Basic
import Mathlib.Tactic.Common

/-!
# The kernel's side

The values of `errno` that the programs of this development tell apart, and a
descriptor as one reading process sees it: a `Source` holds the bytes still to
come and a schedule that says, for each `read` in turn, how many bytes it may
hand over or with which error it fails.  A schedule is what the network and the
signals decide; theorems about readers quantify over it.

## Main definitions

* `Errno` — the error of a failing call.
* `Source`, `Source.read` — a descriptor and `read(fd, buf, len)` on it.

## Main results

* `Source.read_stream` — a `read` loses nothing and keeps the order.
-/

namespace TcpIp

/-- An error number set by a failing system call.  `EWOULDBLOCK` is `EAGAIN`. -/
inductive Errno where
  /-- A nonblocking call that would have had to wait. -/
  | eagain
  /-- A call interrupted by a signal before it did anything. -/
  | eintr
  /-- A descriptor that is not open. -/
  | ebadf
  /-- A write on a connection whose other side is gone. -/
  | epipe
  /-- A connection that was gone before it could be accepted. -/
  | econnaborted
  /-- The same, as some systems report it. -/
  | eproto
  /-- Any other error. -/
  | other (code : ℕ)
  deriving DecidableEq, Repr, Inhabited

/-- The errors that say nothing about the descriptor: the same call may succeed
when it is made again. -/
def Errno.transient : Errno → Bool
  | .eagain => true
  | .eintr => true
  | _ => false

/-! ### Reading from a descriptor -/

/-- What the kernel has in store for one `read`. -/
inductive Sched where
  /-- Up to `k + 1` bytes are there. -/
  | chunk (k : ℕ)
  /-- The call fails. -/
  | fail (e : Errno)
  deriving DecidableEq, Repr

/-- A descriptor open for reading.  When the schedule is used up a `read` gets as
much as it asks for. -/
structure Source where
  /-- The bytes not read yet; the end of the list is the end of file. -/
  pending : List UInt8
  /-- One entry for each of the reads to come. -/
  sched : List Sched
  /-- The bytes handed over so far. -/
  taken : List UInt8
  deriving DecidableEq, Repr

namespace Source

/-- A descriptor nothing has been read from. -/
def start (stream : List UInt8) (sched : List Sched) : Source := ⟨stream, sched, []⟩

/-- Hand over the next `k` bytes, or what is left. -/
def deliver (src : Source) (k : ℕ) : List UInt8 × Source :=
  (src.pending.take k,
    { src with pending := src.pending.drop k, taken := src.taken ++ src.pending.take k })

/-- `read(fd, buf, len)`: the bytes stored in `buf`, none at the end of file. -/
def read (len : ℕ) (src : Source) : Except Errno (List UInt8) × Source :=
  match src.sched with
  | [] => let (bs, src) := src.deliver len
    (.ok bs, src)
  | .chunk k :: sched => let (bs, src) := { src with sched }.deliver (min (k + 1) len)
    (.ok bs, src)
  | .fail e :: sched => (.error e, { src with sched })

/-- Everything that has been or will be read. -/
def stream (src : Source) : List UInt8 := src.taken ++ src.pending

@[simp] theorem stream_start (stream : List UInt8) (sched : List Sched) :
    (start stream sched).stream = stream := rfl

@[simp] theorem deliver_stream (src : Source) (k : ℕ) : (src.deliver k).2.stream = src.stream := by
  simp [deliver, stream]

/-- A `read` loses nothing and keeps the order. -/
theorem read_stream (len : ℕ) (src : Source) : (src.read len).2.stream = src.stream := by
  unfold read
  split
  · exact deliver_stream src len
  · exact deliver_stream _ _
  · rfl

/-- A descriptor that carries `stream` and whose errors all meet `P`. -/
structure Carries (P : Errno → Prop) (stream : List UInt8) (src : Source) : Prop where
  fails : ∀ e, .fail e ∈ src.sched → P e
  stream_eq : src.stream = stream

/-- **A `read` that does not fail.**  If it asks for something it gets at least one
byte, unless the stream is at its end. -/
theorem Carries.read_ok {len : ℕ} (hlen : 0 < len) {src : Source} {P : Errno → Prop}
    {stream : List UInt8} (hsrc : Carries P stream src)
    (hok : ∀ e sched, src.sched ≠ .fail e :: sched) :
    ∃ k, 0 < k ∧ k ≤ len ∧ ∃ src', src.read len = (.ok (src.pending.take k), src') ∧
      src'.pending = src.pending.drop k ∧ Carries P stream src' := by
  have hstream := (read_stream len src).trans hsrc.stream_eq
  unfold read at hstream ⊢
  split at hstream
  · exact ⟨len, hlen, Nat.le_refl _, _, rfl, rfl, hsrc.fails, hstream⟩
  · next k sched h =>
    refine ⟨min (k + 1) len, by omega, by omega, _, rfl, rfl, ?_, hstream⟩
    intro e he
    apply hsrc.fails e
    rw [h]
    exact List.mem_cons_of_mem _ he
  · next e sched h => exact absurd h (hok e sched)

end Source

end TcpIp
