import TcpIp.Epoll.Accounting

/-!
# Which connections the server closes

`handle` treats every negative result of `read` as the end of the connection.
On a nonblocking descriptor `-1` may also mean that there is nothing to read at
the moment, and this happens to a healthy connection: bytes that arrive after an
event was fetched and before `handle` reads are consumed by that `read`, yet
they have caused a further event.  When that event is treated, `read` fails with
`EAGAIN` and the connection is dropped.

## Main results

* `closesRightly_iff_freshEvent` — a run closes only ended connections if and only
  if each of its events is treated while the connection has something to report
  and no `read` is interrupted.
* `closes_on_eagain` — a run that drops a healthy connection.
-/

namespace TcpIp
namespace Epoll

open Run

/-- Going from `s` to `s'`, the server closes and deregisters the descriptor `fd`
of the connection `c`. -/
def Closes (s s' : Sys) (fd : Fd) (c : ConnId) : Prop :=
  s.fds fd = some c ∧ fd ∈ s.epollSet ∧ s'.fds fd = none ∧ fd ∉ s'.epollSet

/-- The result of the `read` made in a step. -/
def Act.nread : Act → Option ReadRes
  | .handle r _ => some r
  | _ => none

/-- `read` said that the connection is over: it returned `0`, or failed with an
error other than `EAGAIN`, `EWOULDBLOCK` and `EINTR`. -/
def ReadRes.ended : ReadRes → Prop
  | .data _ => False
  | .eof => True
  | .fail e => e.transient = false

/-- If the step closes a connection, its event was the one being treated and
`read` said that the connection is over. -/
def ClosesRightly (s : Sys) (a : Act) : Prop :=
  ∀ s' fd c, step s a = some s' → Closes s s' fd c →
    s.events.head? = some fd ∧ ∃ r, a.nread = some r ∧ r.ended

/-- If the step treats an event of a connection, the connection has bytes, the
end of file or an error to report, and no signal interrupts `read`. -/
def FreshEvent (s : Sys) : Act → Prop
  | .handle r _ => (∀ p ∈ s.current, (s.conns p.2).readable) ∧ r ≠ .fail .eintr
  | _ => True

/-! ### What `read` reports -/

/-- A `read` that returned no bytes says that the connection is over exactly if
there was something to report and no signal came in between. -/
theorem ended_iff_readable {x : Conn} {r : ReadRes} (hr : x.readOk maxLine r)
    (hnot : ∀ n, r ≠ .data n) : r.ended ↔ x.readable ∧ r ≠ .fail .eintr := by
  cases r with
  | data n => exact absurd rfl (hnot n)
  | eof =>
    simp only [Conn.readOk, Bool.and_eq_true] at hr
    simp [ReadRes.ended, Conn.readable, hr.1.2]
  | fail e =>
    cases e with
    | eintr => simp [ReadRes.ended, Errno.transient]
    | eagain =>
      simp only [Conn.readOk, Bool.and_eq_true, Bool.not_eq_true'] at hr
      simp [ReadRes.ended, Errno.transient, hr.2]
    | _ =>
      -- every other error is one the connection had pending
      simp only [Conn.readOk, decide_eq_true_eq] at hr
      simp [ReadRes.ended, Errno.transient, Conn.readable, hr]

/-! ### Runs -/

/-- Only `handle` takes an open descriptor out of the table. -/
theorem closes_cases {s s' : Sys} {a : Act} {fd : Fd} {c : ConnId} (h : step s a = some s')
    (hcl : Closes s s' fd c) :
    ∃ r w evs, a = .handle r w ∧ s.events = fd :: evs ∧ ∀ n, r ≠ .data n := by
  obtain ⟨hc, -, hc', -⟩ := hcl
  have hopen : ¬ s.fds fd = none := by simp [hc]
  cases trans_of_step h with
  | connect => exact absurd hc' hopen
  | arrive => exact absurd hc' hopen
  | peerClose => exact absurd hc' hopen
  | sockError => exact absurd hc' hopen
  | waitFail => exact absurd hc' hopen
  | wait => exact absurd hc' hopen
  | acceptFail => exact absurd hc' hopen
  | refuse => exact absurd hc' hopen
  | @accept connfd f evs d bl hrun hev hbl hcur hfd hne =>
    have hne' : fd ≠ connfd := fun heq => hopen (heq ▸ hfd)
    exact absurd ((Function.update_of_ne hne' _ _).symm.trans hc') hopen
  | @abort connfd f evs d bl hfd =>
    have hne' : fd ≠ connfd := fun heq => hopen (heq ▸ hfd)
    exact absurd ((Function.update_of_ne hne' _ _).symm.trans hc') hopen
  | stale => exact absurd hc' hopen
  | echo => exact absurd hc' hopen
  | @hangup fd' r w evs d hrun hev hfd hd hr hnot =>
    have heq : fd = fd' := by
      by_contra hne
      exact hopen ((Function.update_of_ne hne _ _).symm.trans hc')
    exact ⟨r, w, evs, rfl, heq ▸ hev, hnot⟩

/-- A step that is not a `handle` closes nothing, and asks nothing of the event. -/
theorem closesRightly_of_not_handle (s : Sys) {a : Act} (hne : ∀ r w, a ≠ .handle r w) :
    ClosesRightly s a ↔ FreshEvent s a := by
  refine iff_of_true (fun t fd c ht hcl => ?_) ?_
  · obtain ⟨r, w, -, ha, -⟩ := closes_cases ht hcl
    exact absurd ha (hne r w)
  · unfold FreshEvent
    split
    · next r w => exact absurd rfl (hne r w)
    · trivial

/-- A step closes rightly exactly if the event it treats is fresh. -/
theorem closesRightly_step (s : Sys) (a : Act) (s' : Sys) (hs : Accounted s)
    (h : step s a = some s') : ClosesRightly s a ↔ FreshEvent s a := by
  cases trans_of_step h with
  | connect => exact closesRightly_of_not_handle s nofun
  | arrive => exact closesRightly_of_not_handle s nofun
  | peerClose => exact closesRightly_of_not_handle s nofun
  | sockError => exact closesRightly_of_not_handle s nofun
  | waitFail => exact closesRightly_of_not_handle s nofun
  | wait => exact closesRightly_of_not_handle s nofun
  | acceptFail => exact closesRightly_of_not_handle s nofun
  | refuse => exact closesRightly_of_not_handle s nofun
  | accept => exact closesRightly_of_not_handle s nofun
  | abort => exact closesRightly_of_not_handle s nofun
  | @stale fd w evs hrun hev hfd hc =>
    have hA := hs hrun
    have hopen := (hA.open_iff fd hfd).mp (hA.events_mem fd (by simp [hev]))
    simp [hc] at hopen
  | @echo fd n w evs c hrun hev hfd hc hr hw =>
    refine iff_of_true (fun t fd' c' ht hcl => ?_) ⟨fun p hp => ?_, nofun⟩
    · obtain ⟨r, w', -, ha, -, hnot⟩ := closes_cases ht hcl
      simp only [Act.handle.injEq] at ha
      exact absurd ha.1.symm (hnot n)
    · rw [Sys.current_eq hev hc, Option.mem_some_iff] at hp
      simp only [Conn.readOk, decide_eq_true_eq] at hr
      have hne : (s.conns c).rcvq ≠ [] := List.ne_nil_of_length_pos (by omega)
      simp [← hp, Conn.readable, hne]
  | @hangup fd r w evs c hrun hev hfd hc hr hnot =>
    have hA := hs hrun
    have hended := ended_iff_readable hr hnot
    constructor
    · intro hright
      -- the step does close the connection, so `read` said that it is over
      have hmem : fd ∈ s.epollSet := hA.events_mem fd (by simp [hev])
      obtain ⟨-, r', hr', hend⟩ := hright _ fd c h
        ⟨hc, hmem, Function.update_self .., hA.nodup.not_mem_erase⟩
      simp only [Act.nread, Option.some.injEq] at hr'
      subst hr'
      obtain ⟨hread, hintr⟩ := hended.mp hend
      refine ⟨fun p hp => ?_, hintr⟩
      rw [Sys.current_eq hev hc, Option.mem_some_iff] at hp
      exact hp ▸ hread
    · rintro ⟨hread, hintr⟩ t fd' c' ht hcl
      obtain ⟨-, -, evs', -, hev', -⟩ := closes_cases ht hcl
      have hread' := hread (fd, c) (Sys.current_eq hev hc)
      exact ⟨by simp [hev'], r, rfl, hended.mpr ⟨hread', hintr⟩⟩

/-- **The server closes only ended connections, exactly in the runs without stale
events.**  Every connection the server closes and deregisters in a run was
reported over by `read` if and only if each event of the run was treated while
its connection had something to report, with no `read` interrupted. -/
theorem closesRightly_iff_freshEvent (listenfd : Fd) (as : List Act) (s : Sys)
    (h : exec step (init listenfd) as = some s) :
    Along step ClosesRightly (init listenfd) as ↔ Along step FreshEvent (init listenfd) as := by
  exact along_congr accounted_step closesRightly_step as _ s (accounted_init listenfd) h

/-- A byte arrives, its event is fetched, a second byte arrives before `handle`
reads both, and the event of the second byte finds nothing to read. -/
def staleEventRun : List Act :=
  [.connect, .wait [3], .accept 5 true true, .arrive 0 [104], .wait [5], .arrive 0 [105],
   .handle (.data 2) (.wrote 2), .wait [5]] ++ [.handle (.fail .eagain) (.wrote 0)]

theorem closesRightly_iff_freshEvent_staleEventRun :
    ∃ s, exec step (init 3) staleEventRun = some s ∧
      (Along step ClosesRightly (init 3) staleEventRun ↔
        Along step FreshEvent (init 3) staleEventRun) := by
  obtain ⟨s, hs⟩ := Option.isSome_iff_exists.mp
    (show (exec step (init 3) staleEventRun).isSome by decide)
  exact ⟨s, hs, closesRightly_iff_freshEvent 3 staleEventRun s hs⟩

/-- **The server does not close only ended connections**: the peer of
`staleEventRun` has neither closed nor reset the connection, and `read` failed
with `EAGAIN`. -/
theorem closes_on_eagain :
    ¬ ∀ (listenfd : Fd) (as : List Act) (s : Sys), exec step (init listenfd) as = some s →
      Along step ClosesRightly (init listenfd) as := by
  intro hall
  obtain ⟨s, hs⟩ := Option.isSome_iff_exists.mp
    (show (exec step (init 3) staleEventRun).isSome by decide)
  have hlast : (exec step (init 3) (staleEventRun.take 8)).map (fun t =>
      (t.fds 5, t.epollSet, (step t (.handle (.fail .eagain) (.wrote 0))).map fun t' =>
        (t'.fds 5, t'.epollSet))) = some (some 0, [3, 5], some (none, [3])) := by decide
  obtain ⟨t, ht, hfacts⟩ := Option.map_eq_some_iff.mp hlast
  simp only [Prod.mk.injEq, Option.map_eq_some_iff] at hfacts
  obtain ⟨hfd, hset, t', ht', hfd', hset'⟩ := hfacts
  have hright := (Along.of_append _ (hall 3 staleEventRun s hs) ht).1
  obtain ⟨-, r, hr, hended⟩ := hright t' 5 0 ht' ⟨hfd, by simp [hset], hfd', by simp [hset']⟩
  simp only [Act.nread, Option.some.injEq] at hr
  subst hr
  simp [ReadRes.ended, Errno.transient] at hended

end Epoll
end TcpIp
