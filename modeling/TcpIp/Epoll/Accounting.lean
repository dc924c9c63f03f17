import Mathlib.Data.List.Nodup
import TcpIp.Epoll.Server

/-!
# Descriptor accounting of the echo server

`main` counts in `curfds` the descriptors it has put into the epoll set and
passes the counter to `epoll_wait` as the size of the array of events.  The
counter is touched on four paths of one batch: it is left alone when `accept`
fails or the connection is refused, raised when a connection is registered, and
lowered whenever `handle` reports `-1`.  That the last one never lowers it twice
for one connection rests on the batch: its descriptors are distinct, and each of
them stays registered until its own event is treated, even though `close` frees
a number that a later `accept` of the same batch may hand out again.

## Main results

* `accounted_of_reachable` — the invariant `Accounted` holds while the server runs.
* `descriptor_accounting` — `curfds` is one more than the number of open registered
  connections, every open connection is registered, and `1 ≤ curfds ≤ MAXEPOLLSIZE`.
-/

namespace TcpIp
namespace Epoll

open Run

/-- The descriptors of the open connections in the epoll set. -/
def Sys.openConns (s : Sys) : List Fd := s.epollSet.filter fun fd => (s.fds fd).isSome

/-- The bookkeeping invariant, on the components of a state it is about. -/
structure AccountedAt (listenfd : Fd) (fds : Fd → Option ConnId) (epollSet : List Fd)
    (curfds : ℤ) (events : List Fd) : Prop where
  nodup : epollSet.Nodup
  listen_mem : listenfd ∈ epollSet
  listen_fds : fds listenfd = none
  open_iff : ∀ fd, fd ≠ listenfd → (fd ∈ epollSet ↔ (fds fd).isSome)
  curfds_eq : curfds = epollSet.length
  curfds_le : curfds ≤ maxEpollSize
  events_nodup : events.Nodup
  events_mem : ∀ fd ∈ events, fd ∈ epollSet

/-- While the server runs, its books are in order. -/
def Accounted (s : Sys) : Prop :=
  s.running → AccountedAt s.listenfd s.fds s.epollSet s.curfds s.events

/-! ### The invariant is kept -/

section

variable {listenfd fd : Fd} {fds : Fd → Option ConnId} {epollSet evs : List Fd} {curfds : ℤ}

/-- Treating an event shortens the batch and touches nothing else. -/
theorem AccountedAt.tail (h : AccountedAt listenfd fds epollSet curfds (fd :: evs)) :
    AccountedAt listenfd fds epollSet curfds evs where
  __ := h
  events_nodup := h.events_nodup.of_cons
  events_mem := fun x hx => h.events_mem x (List.mem_cons_of_mem _ hx)

/-- Registering a fresh descriptor for a connection. -/
theorem AccountedAt.register (h : AccountedAt listenfd fds epollSet curfds evs)
    (hfresh : fds fd = none) (hne : fd ≠ listenfd) (hlt : curfds < maxEpollSize) (c : ConnId) :
    AccountedAt listenfd (Function.update fds fd (some c)) (epollSet ++ [fd]) (curfds + 1) evs := by
  have hnot : fd ∉ epollSet := by
    rw [h.open_iff fd hne, hfresh]
    simp
  refine ⟨?_, ?_, ?_, ?_, ?_, ?_, h.events_nodup, ?_⟩
  · exact List.nodup_append.mpr ⟨h.nodup, List.nodup_singleton fd, by
      intro a ha b hb
      rw [List.mem_singleton] at hb
      exact fun hab => hnot (hb ▸ hab ▸ ha)⟩
  · exact List.mem_append_left _ h.listen_mem
  · rw [Function.update_of_ne hne.symm, h.listen_fds]
  · intro x hx
    by_cases hxf : x = fd
    · subst hxf
      simp
    · simp [hxf, h.open_iff x hx]
  · rw [h.curfds_eq]
    simp
  · omega
  · exact fun x hx => List.mem_append_left _ (h.events_mem x hx)

/-- Closing the descriptor of the event being treated.  No later event of the
batch is for it, so every later event is still for a registered descriptor. -/
theorem AccountedAt.close (h : AccountedAt listenfd fds epollSet curfds (fd :: evs))
    (hne : fd ≠ listenfd) :
    AccountedAt listenfd (Function.update fds fd none) (epollSet.erase fd) (curfds - 1) evs := by
  have hmem : fd ∈ epollSet := h.events_mem fd List.mem_cons_self
  have hlater : fd ∉ evs := (List.nodup_cons.mp h.events_nodup).1
  have hpos : 0 < epollSet.length := List.length_pos_of_mem hmem
  refine ⟨h.nodup.erase fd, ?_, ?_, ?_, ?_, ?_, h.events_nodup.of_cons, ?_⟩
  · exact (List.mem_erase_of_ne hne.symm).mpr h.listen_mem
  · rw [Function.update_of_ne hne.symm, h.listen_fds]
  · intro x hx
    by_cases hxf : x = fd
    · subst hxf
      simp [h.nodup.not_mem_erase]
    · rw [List.mem_erase_of_ne hxf, Function.update_of_ne hxf, h.open_iff x hx]
  · rw [h.curfds_eq, List.length_erase_of_mem hmem]
    omega
  · have := h.curfds_le
    omega
  · intro x hx
    have hxf : x ≠ fd := fun hxf => hlater (hxf ▸ hx)
    exact (List.mem_erase_of_ne hxf).mpr (h.events_mem x (List.mem_cons_of_mem _ hx))

end

/-- **Every step keeps the books in order.** -/
theorem accounted_step (s : Sys) (a : Act) (s' : Sys) (hs : Accounted s)
    (h : step s a = some s') : Accounted s' := by
  intro hrun'
  cases trans_of_step h with
  | connect => exact hs hrun'
  | arrive => exact hs hrun'
  | peerClose => exact hs hrun'
  | sockError => exact hs hrun'
  | waitFail => exact hs hrun'
  | wait hrun hev hne hnd hlen hmem =>
    exact { hs hrun with events_nodup := hnd, events_mem := fun fd hfd => (hmem fd hfd).1 }
  | acceptFail hrun hev => exact (hev ▸ hs hrun).tail
  | refuse hrun hev hbl hcur => exact (hev ▸ hs hrun).tail
  | accept hrun hev hbl hcur hfd hne => exact (hev ▸ hs hrun).tail.register hfd hne hcur _
  | abort hfd => exact absurd hrun' (by simp)
  | @stale fd w evs hrun hev hfd hc =>
    -- an event for a descriptor that is not open cannot be in the batch
    have hA := hs hrun
    have hopen := (hA.open_iff fd hfd).mp (hA.events_mem fd (by simp [hev]))
    simp [hc] at hopen
  | echo hrun hev hfd hc hr hw => exact (hev ▸ hs hrun).tail
  | hangup hrun hev hfd hc hr hnot => exact (hev ▸ hs hrun).close hfd

theorem accounted_init (listenfd : Fd) : Accounted (init listenfd) := by
  intro _
  refine ⟨?_, ?_, ?_, ?_, ?_, ?_, ?_, ?_⟩ <;> simp [init, maxEpollSize]

theorem accounted_of_reachable {listenfd : Fd} {s : Sys}
    (h : Reachable step (init listenfd) s) : Accounted s :=
  exec_invariant accounted_step (accounted_init listenfd) h

/-! ### The counter -/

/-- All registered descriptors but the listening socket are open connections. -/
theorem AccountedAt.length_open {listenfd : Fd} {fds : Fd → Option ConnId}
    {epollSet events : List Fd} {curfds : ℤ}
    (h : AccountedAt listenfd fds epollSet curfds events) :
    curfds = 1 + ((epollSet.filter fun fd => (fds fd).isSome).length : ℤ) := by
  have hfilter : epollSet.filter (fun fd => (fds fd).isSome) = epollSet.erase listenfd := by
    rw [h.nodup.erase_eq_filter]
    refine List.filter_congr fun fd hfd => ?_
    by_cases hl : fd = listenfd
    · simp [hl, h.listen_fds]
    · simp [hl, (h.open_iff fd hl).mp hfd]
  have hpos : 0 < epollSet.length := List.length_pos_of_mem h.listen_mem
  rw [hfilter, List.length_erase_of_mem h.listen_mem, h.curfds_eq]
  omega

/-- **Descriptor accounting.**  In every state of the event loop `curfds` is one
more than the number of open connections registered in the epoll set, every open
connection is registered, and the counter is a valid size for the array of
events. -/
theorem descriptor_accounting (listenfd : Fd) {s : Sys}
    (h : Reachable step (init listenfd) s) (hrun : s.running) :
    s.curfds = 1 + (s.openConns.length : ℤ) ∧
      (∀ fd c, s.fds fd = some c → fd ∈ s.epollSet) ∧
      1 ≤ s.curfds ∧ s.curfds ≤ maxEpollSize := by
  have hA := accounted_of_reachable h hrun
  refine ⟨hA.length_open, ?_, ?_, hA.curfds_le⟩
  · intro fd c hc
    have hne : fd ≠ s.listenfd := fun hfd => by simp [hfd, hA.listen_fds] at hc
    rw [hA.open_iff fd hne, hc]
    rfl
  · rw [hA.length_open]
    omega

/-- In one batch a connection is closed and its descriptor number goes to the
next connection. -/
def reuseRun : List Act :=
  [.connect, .wait [3], .accept 5 true true, .peerClose 0, .connect, .wait [5, 3],
   .handle .eof (.wrote 0), .accept 5 true true]

theorem descriptor_accounting_reuseRun :
    ∃ s, Reachable step (init 3) s ∧ s.running ∧ s.fds 5 = some 1 ∧
      s.curfds = 1 + (s.openConns.length : ℤ) ∧
      (∀ fd c, s.fds fd = some c → fd ∈ s.epollSet) ∧
      1 ≤ s.curfds ∧ s.curfds ≤ maxEpollSize := by
  obtain ⟨s, hs, hfacts⟩ := Option.map_eq_some_iff.mp
    (show (exec step (init 3) reuseRun).map (fun s => (s.running, s.fds 5))
      = some (true, some 1) by decide)
  simp only [Prod.mk.injEq] at hfacts
  have hreach : Reachable step (init 3) s := ⟨reuseRun, hs⟩
  exact ⟨s, hreach, hfacts.1, hfacts.2, descriptor_accounting 3 hreach hfacts.1⟩

end Epoll
end TcpIp
