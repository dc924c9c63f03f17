import TcpIp.Sigio.DgEcho

/-!
# Overflow of the queue

`sig_io` tests for a full queue in front of `recvfrom`, and so before it knows whether
there is another datagram.  When a datagram has been stored in the last free entry, the
next turn of the loop gives up, also if nothing is waiting in the socket.

## Main definitions

* `Followed` — the datagram for the last free entry is followed by another one.
* `arrivals` — the number of datagrams that arrive in a run.

## Main results

* `overflow_real` — when `sig_io` gives up, and which bursts are safe.
-/

namespace TcpIp
namespace Sigio

open Run

/-- A datagram that is received into the last free entry is not the last one waiting. -/
def Followed (s : Sys) : Act → Prop
  | .recvfrom (.ok _) => s.nqueue + 1 = qsize → 2 ≤ s.sockq.length
  | _ => True

instance (s : Sys) : ∀ a, Decidable (Followed s a)
  | .recvfrom (.ok _) => inferInstanceAs (Decidable (_ → _))
  | .recvfrom (.error _) => inferInstanceAs (Decidable True)
  | .arrive _ => inferInstanceAs (Decidable True)
  | .sigio => inferInstanceAs (Decidable True)
  | .signal => inferInstanceAs (Decidable True)
  | .main => inferInstanceAs (Decidable True)
  | .sendto _ => inferInstanceAs (Decidable True)
  | .check => inferInstanceAs (Decidable True)

/-- The test of `sig_io` that calls `err_quit`. -/
theorem check_exits {s s' : Sys} (hs : step s .check = some s') :
    s'.exited = true ↔ qsize ≤ s.nqueue := by
  simp only [step, Option.ite_none_right_eq_some] at hs
  obtain ⟨hlive, hs⟩ := hs
  split at hs
  · split at hs
    · next hfull =>
      cases hs
      exact iff_of_true rfl hfull
    · next hroom =>
      cases hs
      refine iff_of_false ?_ hroom
      rw [hlive]
      exact Bool.false_ne_true
  · cases hs

/-! ### A full queue -/

/-- When the queue is full, the handler is about to find out, and there is another
datagram. -/
def FullWaiting (s : Sys) : Prop :=
  qsize ≤ s.nqueue → (∃ nread, s.handler = some (.check nread)) ∧ s.sockq ≠ []

/-- The loop does not add to the queue. -/
theorem nqueue_mainStep {s s' : Sys} (hs : s.mainStep = some s') :
    s'.nqueue ≤ s.nqueue ∧ s'.handler = s.handler ∧ s'.sockq = s.sockq := by
  unfold Sys.mainStep at hs
  split at hs <;> cases hs
  case h_9 => exact ⟨Int.sub_le_self _ (by decide), rfl, rfl⟩
  all_goals exact ⟨Int.le_refl _, rfl, rfl⟩

/-- The queue has room while the handler is not at its test. -/
theorem FullWaiting.room {s : Sys} (h : FullWaiting s)
    (hhandler : ∀ nread, s.handler ≠ some (.check nread)) : ¬qsize ≤ s.nqueue := by
  intro hfull
  obtain ⟨⟨nread, hcheck⟩, -⟩ := h hfull
  exact hhandler nread hcheck

theorem fullWaiting_step (s : Sys) (a : Act) (s' : Sys) (h : FullWaiting s) (ha : Followed s a)
    (hs : step s a = some s') : FullWaiting s' := by
  cases trans_of_step hs with
  | arrive =>
    intro hfull
    exact ⟨(h hfull).1, List.append_ne_nil_of_right_ne_nil _ (List.cons_ne_nil _ _)⟩
  | sigio hhandler => exact fun hfull => absurd hfull (h.room (by rw [hhandler]; nofun))
  | signal hhandler => exact fun hfull => absurd hfull (h.room (by rw [hhandler]; nofun))
  | main hhandler hmain =>
    intro hfull
    have hle := (nqueue_mainStep hmain).1
    exact absurd (Int.le_trans hfull hle) (h.room (by rw [hhandler]; nofun))
  | sendto hhandler => exact fun hfull => absurd hfull (h.room (by rw [hhandler]; nofun))
  | exit => exact h
  | check _ hroom => exact fun hfull => absurd hfull hroom
  | @recvfrom nread d sockq hhandler hsockq =>
    intro hfull
    refine ⟨⟨nread + 1, rfl⟩, ?_⟩
    have hroom := h.room (by rw [hhandler]; nofun)
    have hlast : s.nqueue + 1 = qsize := by
      simp only [Sys.queued] at hfull
      omega
    -- the entry was the last one, so another datagram is waiting
    have hmore := ha hlast
    rw [hsockq, List.length_cons] at hmore
    exact List.ne_nil_of_length_pos (Nat.lt_of_succ_le (Nat.le_of_succ_le_succ hmore))
  | handled hhandler => exact fun hfull => absurd hfull (h.room (by rw [hhandler]; nofun))

/-- What `recvfrom` needs in order to return a datagram. -/
theorem recvfrom_ok {s t : Sys} (hs : step s (.recvfrom (.ok ())) = some t) :
    s.exited = false ∧ ∃ nread d sockq, s.handler = some (.recv nread) ∧ s.sockq = d :: sockq ∧
      t = { s with sockq }.queued nread { d with data := d.data.take maxDg } := by
  simp only [step, Option.ite_none_right_eq_some] at hs
  obtain ⟨hlive, hs⟩ := hs
  rcases hhandler : s.handler with _ | (nread | nread)
  · simp only [hhandler] at hs
    cases hs
  · simp only [hhandler] at hs
    cases hs
  · rcases hsockq : s.sockq with _ | ⟨d, sockq⟩
    · simp only [hhandler, hsockq] at hs
      cases hs
    · simp only [hhandler, hsockq, Option.some.injEq] at hs
      exact ⟨hlive, nread, d, sockq, rfl, rfl, hs.symm⟩

/-- A datagram that is received into the last free entry, with nothing behind it, makes the
handler give up. -/
theorem exits_of_not_followed {s t : Sys} (hs : step s (.recvfrom (.ok ())) = some t)
    (hnot : ¬Followed s (.recvfrom (.ok ()))) :
    t.sockq = [] ∧ ∃ s', step t .check = some s' ∧ s'.exited = true := by
  rw [Followed, Classical.not_imp, Nat.not_le] at hnot
  obtain ⟨hlast, hlen⟩ := hnot
  obtain ⟨hlive, nread, d, sockq, -, hsockq, rfl⟩ := recvfrom_ok hs
  rw [hsockq, List.length_cons] at hlen
  refine ⟨List.length_eq_zero_iff.mp (by simp only [Sys.queued]; omega), ?_⟩
  simp only [step, Sys.queued, hlive, hlast, if_true, Int.le_refl]
  exact ⟨_, rfl, rfl⟩

/-! ### Bursts -/

/-- A datagram arrives. -/
def Act.arrives : Act → Bool
  | .arrive _ => true
  | _ => false

/-- The number of datagrams that arrive in a run. -/
def arrivals (as : List Act) : ℕ := as.countP Act.arrives

/-- The datagrams in the queue and in the socket. -/
def Sys.load (s : Sys) : ℤ := s.nqueue + s.sockq.length

/-- A step adds nothing to them but a datagram that arrives. -/
theorem load_step {s s' : Sys} {a : Act} (hs : step s a = some s') :
    s'.load ≤ s.load + if a.arrives then 1 else 0 := by
  unfold Sys.load
  cases trans_of_step hs with
  | arrive =>
    simp only [List.length_append, List.length_singleton, Act.arrives, if_true]
    push_cast
    omega
  | main _ hmain =>
    obtain ⟨hle, -, hsockq⟩ := nqueue_mainStep hmain
    rw [hsockq]
    simp only [Act.arrives, Bool.false_eq_true, if_false]
    omega
  | recvfrom _ hsockq =>
    simp only [Sys.queued, hsockq, List.length_cons, Act.arrives, Bool.false_eq_true, if_false]
    push_cast
    omega
  | sigio | signal | sendto | check | handled =>
    simp only [Sys.handled, Act.arrives, Bool.false_eq_true, if_false]
    omega
  | exit =>
    show s.nqueue + s.sockq.length ≤ s.nqueue + s.sockq.length + _
    split <;> omega

/-- Nor does a run. -/
theorem load_run : ∀ (as : List Act) (s t : Sys), exec step s as = some t →
    t.load ≤ s.load + arrivals as := by
  intro as
  induction as with
  | nil =>
    intro s t h
    simp only [exec_nil, Option.some.injEq] at h
    rw [h]
    exact Int.le_add_of_nonneg_right (Int.natCast_nonneg _)
  | cons a as ih =>
    intro s t h
    obtain ⟨u, hu, htail⟩ := exec_cons_eq_some.mp h
    have hstep := load_step hu
    have hrest := ih u t htail
    rw [arrivals, List.countP_cons, ← arrivals]
    push_cast
    split at hstep
    · next ha => rw [if_pos ha]; omega
    · next ha => rw [if_neg ha]; omega

/-- **Overflow.**  In every run: `sig_io` gives up only with a full queue, and only with
another datagram in the socket if every datagram received into the last free entry was
followed by one; a datagram that is not followed makes it give up with an empty socket.
When the queue and the socket are empty, it does not give up until `QSIZE` datagrams have
arrived, and when they are empty again everything has been sent back. -/
theorem overflow_real (clilen : ℕ) (dg : ℕ → DG) (run : List Act) (s : Sys)
    (h : exec step (init clilen dg) run = some s) :
    (∀ s', step s .check = some s' → s'.exited = true →
      s.nqueue = qsize ∧ (Along step Followed (init clilen dg) run → s.sockq ≠ [])) ∧
    (∀ t, step s (.recvfrom (.ok ())) = some t → ¬Followed s (.recvfrom (.ok ())) →
      t.sockq = [] ∧ ∃ s', step t .check = some s' ∧ s'.exited = true) ∧
    (s.nqueue = 0 → s.sockq = [] → ∀ as t, exec step s as = some t → arrivals as < qsize →
      (∀ s', step t .check = some s' → s'.exited = false) ∧
      (t.main = .test → t.nqueue = 0 → t.sent = t.received)) := by
  refine ⟨?_, fun t => exits_of_not_followed, ?_⟩
  · intro s' hs hexit
    have hfull := (check_exits hs).mp hexit
    obtain ⟨g, hq⟩ := queue_of_reachable ⟨run, h⟩
    have hroom := hq.room
    have hnqueue := hq.nqueue_eq
    refine ⟨by omega, fun hfollowed => ?_⟩
    have hinit : FullWaiting (init clilen dg) := by
      intro hzero
      have hpos : ¬(qsize : ℤ) ≤ 0 := by decide
      exact absurd hzero hpos
    exact (exec_invariant_along fullWaiting_step run (init clilen dg) s hinit hfollowed h hfull).2
  · intro hempty hsockq as t ht hfew
    have hload := load_run as s t ht
    rw [Sys.load, Sys.load, hempty, hsockq, List.length_nil] at hload
    refine ⟨fun s' hs => ?_, fun hmain hzero => ?_⟩
    · rw [← Bool.not_eq_true, check_exits hs]
      omega
    · obtain ⟨g, hq⟩ := queue_of_reachable (Reachable.exec ⟨run, h⟩ ht)
      have hnqueue := hq.nqueue_eq
      have hlag := hq.sent_le
      have hall : t.received.length ≤ g + t.main.lag := by omega
      rw [hq.sent_eq, List.take_of_length_le hall]

/-- The loop waits, `n` datagrams arrive before the signal is delivered, and the handler
receives `k` of them. -/
def burst (n k : ℕ) : List Act :=
  [.main, .main, .main] ++ List.replicate n (.arrive ⟨[104], [1]⟩) ++ [.sigio] ++
    (List.replicate k [.check, .recvfrom (.ok ())]).flatten

/-- With one datagram more than there are entries, the overflow is real. -/
theorem overflow_real_nine :
    ∃ s s', exec step (init 1 fun _ => ⟨[], 0, [], 0⟩) (burst (qsize + 1) qsize) = some s ∧
      step s .check = some s' ∧ s'.exited = true ∧ s.nqueue = qsize ∧ s.sockq ≠ [] := by
  obtain ⟨s, hs, hfacts⟩ := Option.map_eq_some_iff.mp
    (show (exec step (init 1 fun _ => ⟨[], 0, [], 0⟩) (burst (qsize + 1) qsize)).map
      (fun s => (step s .check).map (·.exited)) = some (some true) by decide +kernel)
  obtain ⟨s', hs', hexit⟩ := Option.map_eq_some_iff.mp hfacts
  obtain ⟨hfull, hwaiting⟩ := (overflow_real 1 _ _ s hs).1 s' hs' hexit
  exact ⟨s, s', hs, hs', hexit, hfull, hwaiting (by decide +kernel)⟩

/-- A burst of `QSIZE` datagrams arrives while the queue is empty.  All of them are
received, nothing is left in the socket, and the handler gives up. -/
theorem burst_of_qsize_aborted :
    ∃ s s', exec step (init 1 fun _ => ⟨[], 0, [], 0⟩) (burst qsize qsize) = some s ∧
      s.received.length = qsize ∧ s.sockq = [] ∧
      step s .check = some s' ∧ s'.exited = true ∧ s'.sent = [] := by
  obtain ⟨s, hs, hfacts⟩ := Option.map_eq_some_iff.mp
    (show (exec step (init 1 fun _ => ⟨[], 0, [], 0⟩) (burst qsize qsize)).map
      (fun s => (s.received.length, s.sockq, (step s .check).map fun s' => (s'.exited, s'.sent))) =
        some (qsize, [], some (true, [])) by decide +kernel)
  simp only [Prod.mk.injEq] at hfacts
  obtain ⟨hlen, hsockq, hexits⟩ := hfacts
  obtain ⟨s', hs', hexit⟩ := Option.map_eq_some_iff.mp hexits
  rw [Prod.mk.injEq] at hexit
  exact ⟨s, s', hs, hlen, hsockq, hs', hexit⟩

end Sigio
end TcpIp
