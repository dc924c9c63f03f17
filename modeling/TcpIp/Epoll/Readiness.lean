import TcpIp.Epoll.Server

/-!
# Readiness under edge-triggered events

An edge-triggered event announces that something new has come in and is reported
once, so a server has to consume everything that is queued before it waits
again.  `main` accepts one connection for each event of the listening socket and
`handle` reads once, `MAXLINE` bytes at most.  What is left over is announced
only if the peer acts again.

## Main results

* `noneStranded_of_drains` — if every accept and every read of a run leaves
  nothing behind that is not announced again, no work is stranded whenever the
  server calls `epoll_wait`.
* `connection_stranded` — a run that strands a completed connection.
-/

namespace TcpIp
namespace Epoll

open Run

/-- Work is queued on a descriptor: connections to accept on the listening
socket, unread bytes on a connection. -/
def Sys.queued (s : Sys) (fd : Fd) : Prop :=
  if fd = s.listenfd then s.backlog ≠ [] else ∃ c, s.fds fd = some c ∧ (s.conns c).rcvq ≠ []

/-- Every registered descriptor on which work is queued has an undelivered
event. -/
def NoneStranded (s : Sys) : Prop :=
  ∀ fd ∈ s.epollSet, s.queued fd → s.ready fd

/-- The step consumes all that is queued on the descriptor of the event it
treats, unless a further event of that descriptor is due anyway. -/
def Drains (s : Sys) : Act → Prop
  | .acceptFail _ => s.backlog = [] ∨ s.ready s.listenfd
  | .accept _ _ _ => s.backlog.length ≤ 1 ∨ s.ready s.listenfd
  | .handle (.data n) _ =>
    ∀ p ∈ s.current, n = (s.conns p.2).rcvq.length ∨ s.ready p.1
  | _ => True

instance (s : Sys) (a : Act) : Decidable (Drains s a) := by
  unfold Drains
  split <;> infer_instance

/-- Work is queued only where an event is due or still to be treated; the
invariant on the components of a state it is about. -/
structure AnnouncedAt (listenfd : Fd) (backlog : List ConnId) (conns : ConnId → Conn)
    (fds : Fd → Option ConnId) (epollSet : List Fd) (ready : Fd → Bool) (events : List Fd) :
    Prop where
  listen : backlog ≠ [] → ready listenfd ∨ listenfd ∈ events
  conn : ∀ fd ∈ epollSet, fd ≠ listenfd → ∀ c, fds fd = some c → (conns c).rcvq ≠ [] →
    ready fd ∨ fd ∈ events

/-- While the server runs, all queued work is announced. -/
def Announced (s : Sys) : Prop :=
  s.running →
    AnnouncedAt s.listenfd s.backlog s.conns s.fds s.epollSet s.ready s.events

/-! ### Announcements survive the steps -/

section

variable {listenfd fd : Fd} {backlog bl : List ConnId} {conns : ConnId → Conn} {c : ConnId}
  {fds : Fd → Option ConnId} {epollSet events evs : List Fd} {ready : Fd → Bool}

/-- A new connection is announced on the listening socket. -/
theorem AnnouncedAt.connect
    (h : AnnouncedAt listenfd backlog conns fds epollSet ready events) :
    AnnouncedAt listenfd bl conns fds epollSet (Function.update ready listenfd true) events where
  listen := fun _ => .inl (Function.update_self ..)
  conn := by
    intro fd hfd hl c hc hrcv
    rw [Function.update_of_ne hl]
    exact h.conn fd hfd hl c hc hrcv

/-- A connection changes and its descriptors are announced. -/
theorem AnnouncedAt.announce
    (h : AnnouncedAt listenfd backlog conns fds epollSet ready events) (x : Conn) :
    AnnouncedAt listenfd backlog (Function.update conns c x) fds epollSet
      (fun fd => ready fd || (epollSet.contains fd && fds fd == some c)) events where
  listen := fun hbl => (h.listen hbl).imp_left fun hr => by simp [hr]
  conn := by
    intro fd hfd hl d hd hrcv
    by_cases hdc : d = c
    · subst hdc
      exact .inl (by simp [hfd, hd])
    · rw [Function.update_of_ne hdc] at hrcv
      exact (h.conn fd hfd hl d hd hrcv).imp_left fun hr => by simp [hr]

/-- The event of the listening socket has been treated, and the connections left
to accept are announced. -/
theorem AnnouncedAt.tail_listen
    (h : AnnouncedAt listenfd backlog conns fds epollSet ready (listenfd :: evs))
    (hbl : bl = [] ∨ ready listenfd) :
    AnnouncedAt listenfd bl conns fds epollSet ready evs where
  listen := fun hne => .inl (hbl.resolve_left hne)
  conn := by
    intro fd hfd hl d hd hrcv
    refine (h.conn fd hfd hl d hd hrcv).imp_right fun hin => ?_
    exact (List.mem_cons.mp hin).resolve_left hl

/-- The event of a descriptor has been treated, and nothing is left on it that
is not announced. -/
theorem AnnouncedAt.tail
    (h : AnnouncedAt listenfd backlog conns fds epollSet ready (fd :: evs)) (hfd : fd ≠ listenfd)
    (hleft : ∀ d, fds fd = some d → (conns d).rcvq = [] ∨ ready fd) :
    AnnouncedAt listenfd backlog conns fds epollSet ready evs where
  listen := fun hne => (h.listen hne).imp_right fun hin =>
    (List.mem_cons.mp hin).resolve_left hfd.symm
  conn := by
    intro fd' hfd' hl d hd hrcv
    rcases h.conn fd' hfd' hl d hd hrcv with hr | hin
    · exact .inl hr
    · rcases List.mem_cons.mp hin with rfl | hin
      · exact .inl ((hleft d hd).resolve_left hrcv)
      · exact .inr hin

/-- Connections lose bytes to `read`, or keep them. -/
theorem AnnouncedAt.mono {conns' : ConnId → Conn}
    (h : AnnouncedAt listenfd backlog conns fds epollSet ready events)
    (hsub : ∀ d, (conns d).rcvq = [] → (conns' d).rcvq = []) :
    AnnouncedAt listenfd backlog conns' fds epollSet ready events where
  listen := h.listen
  conn := fun fd hfd hl d hd hrcv => h.conn fd hfd hl d hd fun hnil => hrcv (hsub d hnil)

/-- A new descriptor is registered; `EPOLL_CTL_ADD` announces what has already
arrived on it. -/
theorem AnnouncedAt.register
    (h : AnnouncedAt listenfd backlog conns fds epollSet ready events) (hne : fd ≠ listenfd) :
    AnnouncedAt listenfd backlog conns (Function.update fds fd (some c)) (epollSet ++ [fd])
      (Function.update ready fd (conns c).readable) events where
  listen := by
    intro hbl
    rw [Function.update_of_ne hne.symm]
    exact h.listen hbl
  conn := by
    intro fd' hfd' hl d hd hrcv
    by_cases hff : fd' = fd
    · subst hff
      rw [Function.update_self, Option.some.injEq] at hd
      subst hd
      exact .inl (by simp [Conn.readable, hrcv])
    · rw [Function.update_of_ne hff] at hd ⊢
      have hmem : fd' ∈ epollSet := by simpa [hff] using hfd'
      exact h.conn fd' hmem hl d hd hrcv

/-- The descriptor of the event being treated is closed. -/
theorem AnnouncedAt.close
    (h : AnnouncedAt listenfd backlog conns fds epollSet ready (fd :: evs)) (hne : fd ≠ listenfd) :
    AnnouncedAt listenfd backlog conns (Function.update fds fd none) (epollSet.erase fd)
      (Function.update ready fd false) evs where
  listen := by
    intro hbl
    rw [Function.update_of_ne hne.symm]
    exact (h.listen hbl).imp_right fun hin => (List.mem_cons.mp hin).resolve_left hne.symm
  conn := by
    intro fd' hfd' hl d hd hrcv
    have hff : fd' ≠ fd := by
      rintro rfl
      simp at hd
    rw [Function.update_of_ne hff] at hd ⊢
    refine (h.conn fd' (List.mem_of_mem_erase hfd') hl d hd hrcv).imp_right fun hin => ?_
    exact (List.mem_cons.mp hin).resolve_left hff

end

/-- `setnonblocking` leaves the queue of the connection alone. -/
theorem rcvq_setnonblocking (conns : ConnId → Conn) (c : ConnId) (f : Bool) (d : ConnId) :
    (Function.update conns c (setnonblocking (conns c) f).1 d).rcvq = (conns d).rcvq := by
  by_cases hdc : d = c
  · subst hdc
    cases f <;> simp [setnonblocking]
  · rw [Function.update_of_ne hdc]

theorem rcvq_handle (x : Conn) (n : ℕ) (w : WriteRes) :
    (handle x (.data n) w).1.rcvq = x.rcvq.drop n := rfl

/-- **A step that drains its descriptor leaves all work announced.** -/
theorem announced_step (s : Sys) (a : Act) (s' : Sys) (hs : Announced s) (hd : Drains s a)
    (h : step s a = some s') : Announced s' := by
  intro hrun'
  cases trans_of_step h with
  | connect => exact (hs hrun').connect
  | arrive => exact (hs hrun').announce _
  | peerClose => exact (hs hrun').announce _
  | sockError => exact (hs hrun').announce _
  | waitFail => exact hs hrun'
  | @wait evs hrun hev hne hnd hlen hmem =>
    -- the batch was empty, so all work was announced: fetched now, or still due
    have hA := hs hrun
    have hsplit : ∀ fd, s.ready fd ∨ fd ∈ s.events → (s.fetch evs).ready fd ∨ fd ∈ evs := by
      intro fd hfd
      have hready : s.ready fd := hfd.resolve_right (by simp [hev])
      by_cases hin : fd ∈ evs
      · exact .inr hin
      · exact .inl (by simp [Sys.fetch, hready, hin])
    exact ⟨fun hbl => hsplit _ (hA.listen hbl),
      fun fd hfd hl c hc hrcv => hsplit fd (hA.conn fd hfd hl c hc hrcv)⟩
  | acceptFail hrun hev => exact (hev ▸ hs hrun).tail_listen hd
  | @refuse connfd f b evs c bl hrun hev hbl hcur =>
    refine (hev ▸ hs hrun).tail_listen (Or.imp_left (fun hlen => ?_) hd)
    simpa [hbl] using hlen
  | @accept connfd f evs c bl hrun hev hbl hcur hfd hne =>
    have hbl' : bl = [] ∨ s.ready s.listenfd :=
      Or.imp_left (fun hlen => by simpa [hbl] using hlen) hd
    refine AnnouncedAt.register (AnnouncedAt.mono ((hev ▸ hs hrun).tail_listen hbl') ?_) hne
    exact fun d hnil => (rcvq_setnonblocking _ _ _ d).trans hnil
  | abort => exact absurd hrun' (by simp)
  | @stale fd w evs hrun hev hfd hc =>
    exact (hev ▸ hs hrun).tail hfd fun d hd' => by simp [hc] at hd'
  | @echo fd n w evs c hrun hev hfd hc hr hw =>
    have hA : AnnouncedAt s.listenfd s.backlog
        (Function.update s.conns c (handle (s.conns c) (.data n) w).1) s.fds s.epollSet s.ready
        (fd :: evs) := by
      refine (hev ▸ hs hrun).mono fun d hnil => ?_
      by_cases hdc : d = c
      · subst hdc
        rw [Function.update_self, rcvq_handle, hnil, List.drop_nil]
      · rwa [Function.update_of_ne hdc]
    refine hA.tail hfd fun d hd' => ?_
    -- the descriptor just read: nothing is left, or an event is due
    rw [hc, Option.some.injEq] at hd'
    subst hd'
    refine Or.imp_left (fun hall => ?_) (hd (fd, c) (Sys.current_eq hev hc))
    rw [Function.update_self, rcvq_handle, hall, List.drop_length]
  | hangup hrun hev hfd hc hr hnot => exact (hev ▸ hs hrun).close hfd

/-- **No work is stranded in the runs that drain.**  In every run in which each
accept takes the last waiting connection and each read all the queued bytes,
unless a further event of the descriptor is due already, no registered
descriptor has work queued without an undelivered event when the server calls
`epoll_wait`. -/
theorem noneStranded_of_drains (listenfd : Fd) (as : List Act) (s : Sys)
    (h : exec step (init listenfd) as = some s) (hd : Along step Drains (init listenfd) as)
    (hrun : s.running) (hwait : s.events = []) : NoneStranded s := by
  have h₀ : Announced (init listenfd) := fun _ =>
    ⟨fun hbl => absurd rfl hbl, fun fd _ _ c hc => by simp [init] at hc⟩
  have hs := exec_invariant_along announced_step as _ s h₀ hd h hrun
  intro fd hfd hq
  unfold Sys.queued at hq
  split at hq
  · next hl => exact hl ▸ (hs.listen hq).resolve_right (by simp [hwait])
  · next hl =>
    obtain ⟨c, hc, hrcv⟩ := hq
    exact (hs.conn fd hfd hl c hc hrcv).resolve_right (by simp [hwait])

/-- A connection is accepted, two bytes arrive on it and are read in full. -/
def drainingRun : List Act :=
  [.connect, .wait [3], .accept 5 true true, .arrive 0 [104, 105], .wait [5],
   .handle (.data 2) (.wrote 2)]

theorem noneStranded_of_drains_drainingRun :
    ∃ s, exec step (init 3) drainingRun = some s ∧
      Along step Drains (init 3) drainingRun ∧ s.running ∧ s.events = [] ∧ NoneStranded s := by
  obtain ⟨s, hs, hfacts⟩ := Option.map_eq_some_iff.mp
    (show (exec step (init 3) drainingRun).map (fun s => (s.running, s.events))
      = some (true, []) by decide)
  simp only [Prod.mk.injEq] at hfacts
  have hd : Along step Drains (init 3) drainingRun := by decide
  exact ⟨s, hs, hd, hfacts.1, hfacts.2,
    noneStranded_of_drains 3 drainingRun s hs hd hfacts.1 hfacts.2⟩

/-- Two connections complete before the one event that announces them is
fetched; one of them is accepted. -/
def twoConnectionsRun : List Act := [.connect, .connect, .wait [3], .accept 5 true true]

/-- **Work can be stranded**: after `twoConnectionsRun` the server calls
`epoll_wait` while a completed connection waits to be accepted and no event is
due. -/
theorem connection_stranded :
    ¬ ∀ (listenfd : Fd) (s : Sys), Reachable step (init listenfd) s → s.running →
      s.events = [] → NoneStranded s := by
  intro hall
  obtain ⟨s, hs, hfacts⟩ := Option.map_eq_some_iff.mp
    (show (exec step (init 3) twoConnectionsRun).map
        (fun s => (s.running && !s.ready 3, s.events, s.listenfd, s.backlog, s.epollSet))
      = some (true, [], 3, [1], [3, 5]) by decide)
  simp only [Prod.mk.injEq, Bool.and_eq_true, Bool.not_eq_true'] at hfacts
  obtain ⟨⟨hrun, hready⟩, hev, hl, hbl, hset⟩ := hfacts
  have hq : s.queued 3 := by simp [Sys.queued, hl, hbl]
  have h3 := hall 3 s ⟨twoConnectionsRun, hs⟩ hrun hev 3 (by simp [hset]) hq
  simp [hready] at h3

end Epoll
end TcpIp
