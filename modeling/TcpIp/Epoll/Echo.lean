import TcpIp.Epoll.Server

/-!
# Echo integrity

The purpose of the server is that a client gets back what it sent.  `handle`
calls `write` once and does not look at its result, while `setnonblocking` has
made sure that the kernel may take over only part of the bytes, or none.  So the
bytes written on a connection are the bytes read from it exactly as long as
every `write` was complete, and a single short one is never made good.

## Main results

* `echoIntact_iff_along` — in every run, the echo is intact at the end if and only
  if every `write` of the run was complete.
* `echo_lost_by_short_write` — a run in which it is not.
-/

namespace TcpIp
namespace Epoll

open Run

/-- On every connection, the bytes handed to the kernel with `write` are the
bytes read from it. -/
def EchoIntact (s : Sys) : Prop := ∀ c, (s.conns c).wr = (s.conns c).rd

/-- If the step makes a `write`, the kernel takes over all its bytes. -/
def WritesWhole (_ : Sys) : Act → Prop
  | .handle (.data n) w => w = .wrote n
  | _ => True

/-- No connection has been written more bytes than were read from it. -/
def WrittenLeRead (s : Sys) : Prop := ∀ c, (s.conns c).wr.length ≤ (s.conns c).rd.length

/-- The histories of the connections change in one way only: `handle` echoes
bytes on one of them. -/
theorem history_cases {s s' : Sys} {a : Act} (h : step s a = some s') :
    ((∀ c, (s'.conns c).rd = (s.conns c).rd ∧ (s'.conns c).wr = (s.conns c).wr) ∧
      ∀ n w, a ≠ .handle (.data n) w) ∨
    ∃ c n w, a = .handle (.data n) w ∧ (s.conns c).readOk maxLine (.data n) ∧
      (s.conns c).writeOk n w ∧
      s'.conns = Function.update s.conns c (handle (s.conns c) (.data n) w).1 := by
  -- a connection that is replaced by one with the same history
  have hsame : ∀ (c : ConnId) (x : Conn), x.rd = (s.conns c).rd → x.wr = (s.conns c).wr →
      ∀ d, (Function.update s.conns c x d).rd = (s.conns d).rd ∧
        (Function.update s.conns c x d).wr = (s.conns d).wr := by
    intro c x hrd hwr d
    by_cases hd : d = c
    · subst hd
      simp [hrd, hwr]
    · simp [hd]
  have hnb : ∀ (x : Conn) (f : Bool),
      (setnonblocking x f).1.rd = x.rd ∧ (setnonblocking x f).1.wr = x.wr := by
    intro x f
    cases f <;> exact ⟨rfl, rfl⟩
  cases trans_of_step h with
  | connect => exact .inl ⟨fun _ => ⟨rfl, rfl⟩, nofun⟩
  | arrive => exact .inl ⟨hsame _ _ rfl rfl, nofun⟩
  | peerClose => exact .inl ⟨hsame _ _ rfl rfl, nofun⟩
  | sockError => exact .inl ⟨hsame _ _ rfl rfl, nofun⟩
  | waitFail => exact .inl ⟨fun _ => ⟨rfl, rfl⟩, nofun⟩
  | wait => exact .inl ⟨fun _ => ⟨rfl, rfl⟩, nofun⟩
  | acceptFail => exact .inl ⟨fun _ => ⟨rfl, rfl⟩, nofun⟩
  | refuse => exact .inl ⟨fun _ => ⟨rfl, rfl⟩, nofun⟩
  | accept => exact .inl ⟨hsame _ _ (hnb _ _).1 (hnb _ _).2, nofun⟩
  | abort => exact .inl ⟨hsame _ _ (hnb _ _).1 (hnb _ _).2, nofun⟩
  | stale => exact .inl ⟨fun _ => ⟨rfl, rfl⟩, by simp⟩
  | echo hrun hev hfd hc hr hw => exact .inr ⟨_, _, _, rfl, hr, hw, rfl⟩
  | hangup hrun hev hfd hc hr hnot =>
    refine .inl ⟨fun _ => ⟨rfl, rfl⟩, fun n w ha => ?_⟩
    simp only [Act.handle.injEq] at ha
    exact hnot n ha.1

/-- What an echo does to the history of its connection. -/
theorem handle_history (x : Conn) (n : ℕ) (w : WriteRes) :
    (handle x (.data n) w).1.rd = x.rd ++ x.rcvq.take n ∧
      (handle x (.data n) w).1.wr = x.wr ++ (x.rcvq.take n).take w.count :=
  ⟨rfl, rfl⟩

theorem count_le_of_writeOk {x : Conn} {n : ℕ} {w : WriteRes} (h : x.writeOk n w) :
    w.count ≤ n := by
  cases w with
  | wrote k =>
    simp only [Conn.writeOk, decide_eq_true_eq] at h
    exact h.2
  | fail e => exact Nat.zero_le n

/-- A write that took over all `n > 0` bytes returned `n`. -/
theorem eq_wrote_of_count {n : ℕ} {w : WriteRes} (hpos : 0 < n) (h : w.count = n) :
    w = .wrote n := by
  cases w with
  | wrote k => exact congrArg _ h
  | fail e =>
    simp only [WriteRes.count] at h
    omega

theorem writtenLeRead_step (s : Sys) (a : Act) (s' : Sys) (hs : WrittenLeRead s)
    (h : step s a = some s') : WrittenLeRead s' := by
  intro d
  rcases history_cases h with ⟨hsame, -⟩ | ⟨c, n, w, -, -, -, hc⟩
  · rw [(hsame d).1, (hsame d).2]
    exact hs d
  · rw [hc]
    by_cases hd : d = c
    · subst hd
      rw [Function.update_self, (handle_history _ _ _).1, (handle_history _ _ _).2]
      have := hs d
      simp only [List.length_append, List.length_take]
      omega
    · rw [Function.update_of_ne hd]
      exact hs d

/-- An echo leaves a connection intact exactly if it was intact before and the
`write` was complete. -/
theorem handle_intact_iff {x : Conn} {n : ℕ} {w : WriteRes} (hle : x.wr.length ≤ x.rd.length)
    (hr : x.readOk maxLine (.data n)) (hw : x.writeOk n w) :
    (handle x (.data n) w).1.wr = (handle x (.data n) w).1.rd ↔
      x.wr = x.rd ∧ w = .wrote n := by
  rw [(handle_history x n w).1, (handle_history x n w).2]
  simp only [Conn.readOk, decide_eq_true_eq] at hr
  have hcount := count_le_of_writeOk hw
  constructor
  · intro heq
    -- comparing lengths: neither side can make up for a shorter start
    have hlen := congrArg List.length heq
    simp only [List.length_append, List.length_take] at hlen
    obtain ⟨hxy, -⟩ := List.append_inj heq (by omega)
    exact ⟨hxy, eq_wrote_of_count hr.1 (by omega)⟩
  · rintro ⟨hxy, rfl⟩
    rw [hxy, WriteRes.count, List.take_take, Nat.min_self]

theorem echoIntact_step (s : Sys) (a : Act) (s' : Sys) (hs : WrittenLeRead s)
    (h : step s a = some s') : EchoIntact s' ↔ EchoIntact s ∧ WritesWhole s a := by
  rcases history_cases h with ⟨hsame, hnot⟩ | ⟨c, n, w, rfl, hr, hw, hc⟩
  · have htriv : WritesWhole s a := by
      unfold WritesWhole
      split
      · next n w => exact absurd rfl (hnot n w)
      · trivial
    have hiff : EchoIntact s' ↔ EchoIntact s :=
      forall_congr' fun d => by rw [(hsame d).1, (hsame d).2]
    rw [hiff, and_iff_left htriv]
  · have hx := handle_intact_iff (hs c) hr hw
    constructor
    · intro hI
      have hat := hI c
      rw [hc, Function.update_self, hx] at hat
      refine ⟨fun d => ?_, hat.2⟩
      by_cases hd : d = c
      · exact hd ▸ hat.1
      · have := hI d
        rwa [hc, Function.update_of_ne hd] at this
    · rintro ⟨hI, hwhole⟩ d
      rw [hc]
      by_cases hd : d = c
      · subst hd
        rw [Function.update_self, hx]
        exact ⟨hI d, hwhole⟩
      · rw [Function.update_of_ne hd]
        exact hI d

/-- **Echo integrity.**  After any run, on every connection the bytes written are
the bytes read if and only if the kernel took over the whole buffer in every
`write` of the run.  Since a prefix of a run is a run, in a run of complete
writes the echo is intact at every moment. -/
theorem echoIntact_iff_along (listenfd : Fd) (as : List Act) (s : Sys)
    (h : exec step (init listenfd) as = some s) :
    EchoIntact s ↔ Along step WritesWhole (init listenfd) as := by
  have h₀ : EchoIntact (init listenfd) := fun _ => rfl
  rw [exec_iff_along writtenLeRead_step echoIntact_step as _ s (fun _ => Nat.le_refl _) h]
  exact and_iff_right h₀

/-- A client sends two bytes; `read` returns both and the kernel takes over one. -/
def shortWriteRun : List Act :=
  [.connect, .wait [3], .accept 5 true true, .arrive 0 [104, 105], .wait [5],
   .handle (.data 2) (.wrote 1)]

theorem echoIntact_iff_along_shortWriteRun :
    ∃ s, exec step (init 3) shortWriteRun = some s ∧
      (EchoIntact s ↔ Along step WritesWhole (init 3) shortWriteRun) := by
  obtain ⟨s, hs⟩ := Option.isSome_iff_exists.mp
    (show (exec step (init 3) shortWriteRun).isSome by decide)
  exact ⟨s, hs, echoIntact_iff_along 3 shortWriteRun s hs⟩

/-- **The echo is not intact in every run**: after a short write the connection
has been sent one of the two bytes read from it, and `handle` has returned. -/
theorem echo_lost_by_short_write :
    ¬ ∀ (listenfd : Fd) (s : Sys), Reachable step (init listenfd) s → EchoIntact s := by
  intro hall
  have hrun : (exec step (init 3) shortWriteRun).map
      (fun s => ((s.conns 0).rd, (s.conns 0).wr)) = some ([104, 105], [104]) := by decide
  rw [Option.map_eq_some_iff] at hrun
  obtain ⟨s, hs, hhist⟩ := hrun
  have hI := hall 3 s ⟨shortWriteRun, hs⟩ 0
  simp only [Prod.mk.injEq] at hhist
  rw [hhist.1, hhist.2] at hI
  exact absurd hI (by decide)

end Epoll
end TcpIp
