import TcpIp.Icmp.Daemon
import TcpIp.Select.ClientTable

/-!
# Descriptors that do not fit into a set

`tcpservselect01` and `icmpd` keep their clients in an array of `FD_SETSIZE` entries, and
turn a connection down when there is no free entry.  The descriptors of the clients are put
into a set for descriptors below `FD_SETSIZE`.  A process has other descriptors too, so that
there is a free entry left when all the descriptors below `FD_SETSIZE` are in use.

The kernel gives out the lowest descriptor that is not in use, and may have more of them.

## Main definitions

* `ClientTable.Low`, `Daemon.Low` — the steps of such a kernel.
* `ClientTable.Fits`, `Daemon.Fits` — every descriptor that is put into the set, or looked
  for in it, fits.
* `ClientTable.Room`, `Daemon.Room` — the condition on a step.

## Main results

* `fits_iff_room` — everything fits at the end of a run **exactly if** there was a
  descriptor below `FD_SETSIZE` left at every accepted connection.
* `many_clients` — the run in which there was none.
-/

namespace TcpIp.Select.ClientTable

open Run Table

/-- The kernel returns the lowest descriptor that is not open. -/
def Low (s : Sys) : Act → Prop
  | .accept connfd => Lowest s.isOpen connfd
  | _ => True

instance (s : Sys) : ∀ a, Decidable (Low s a)
  | .accept connfd => inferInstanceAs (Decidable (Lowest s.isOpen connfd))
  | .select _ | .selectFail | .acceptFail _ | .read | .eof _ | .readFail | .writen _ | .tick =>
    isTrue trivial

/-- `FD_SET` and `FD_ISSET` have been applied to descriptors below `FD_SETSIZE`, and the
next calls will be. -/
structure Fits (s : Sys) : Prop where
  defined : s.pc ≠ .undefined
  listen : s.listenfd < fdSetsize
  clients : ∀ i < fdSetsize, ∀ fd, s.client i = some fd → fd < fdSetsize
  watched : ∀ fd, s.allset fd = true → fd < fdSetsize

/-- **The condition on a step**: a connection for which there is an entry finds a descriptor
below `FD_SETSIZE` that is not open. -/
def Room (s : Sys) : Act → Prop
  | .accept _ => (∃ i < fdSetsize, s.client i = none) → ∃ fd < fdSetsize, s.isOpen fd = false
  | _ => True

section Step

variable {s s' : Sys} {a : Act} {connfd : Fd}

theorem fits_iff (h : Inv s) : Fits s ↔ s.pc ≠ .undefined := by
  refine ⟨Fits.defined, fun hpc => ?_⟩
  obtain ⟨hcon, -⟩ := h.resolve_left hpc
  exact ⟨hpc, hcon.small _ ((hcon.listed _).mpr (.inl rfl)),
    fun i hi fd hc => hcon.small fd (hcon.mem_allset hi hc), hcon.small⟩

/-- What `accept` leads to. -/
theorem accepted_pc : (s.accepted connfd).pc = .undefined ↔
    (∃ i < fdSetsize, s.client i = none) ∧ fdSetsize ≤ connfd := by
  unfold Sys.accepted
  split
  · next hnone =>
    have hfull := first_eq_none_iff.mp hnone
    refine iff_of_false (by simp [Sys.exit]) ?_
    rintro ⟨⟨i, hi, hfree⟩, -⟩
    have := hfull i hi
    rw [hfree] at this
    cases this
  · next i hfirst =>
    obtain ⟨hi, hfree⟩ := first_eq_some hfirst
    rw [Option.isNone_iff_eq_none] at hfree
    split
    · next hbig => exact iff_of_true rfl ⟨⟨i, hi, hfree⟩, hbig⟩
    · next hsmall =>
      refine iff_of_false ?_ fun h => hsmall h.2
      simp only [Sys.countDown]
      split <;> simp

/-- A connection gets an entry. -/
theorem accepted_eq {i : ℕ} (hfirst : first Option.isNone s.client fdSetsize = some i)
    (hsmall : connfd < fdSetsize) : s.accepted connfd =
      { s with
        client := Function.update s.client i (some connfd)
        allset := Function.update s.allset connfd true
        maxfd := max s.maxfd connfd
        maxi := max s.maxi i
        isOpen := Function.update s.isOpen connfd true }.countDown 0 := by
  unfold Sys.accepted
  rw [hfirst]
  simp only
  split
  · next hbig => exact absurd hsmall (Nat.not_lt_of_le hbig)
  · rfl

theorem countDown_pc (s : Sys) (i : ℕ) : (s.countDown i).pc ≠ .undefined := by
  simp only [Sys.countDown]
  split <;> simp

theorem tick_pc (hs : s.tick = some s') : s'.pc ≠ .undefined := by
  unfold Sys.tick at hs
  split at hs
  · split at hs
    · split at hs
      · cases hs; simp
      · split at hs <;> cases hs <;> simp
    · cases hs; simp
  · cases hs

/-- No other step leads out of the set. -/
theorem step_pc (hs : step s a = some s') (ha : ∀ connfd, a ≠ .accept connfd) :
    s'.pc ≠ .undefined := by
  cases next_of_step hs with
  | selected =>
    simp only [Sys.selected]
    split <;> simp
  | @accepted connfd => exact absurd rfl (ha connfd)
  | again hpc => rw [hpc]; simp
  | read => simp
  | closed => exact countDown_pc _ _
  | written => exact countDown_pc _ _
  | tick hs => exact tick_pc hs
  | exit => simp [Sys.exit]

/-- **A step keeps to the set exactly if there is room.** -/
theorem step_defined_iff (hs : guarded step Low s a = some s') :
    s'.pc ≠ .undefined ↔ s.pc ≠ .undefined ∧ Room s a := by
  obtain ⟨hlow, hs⟩ := guarded_eq_some.mp hs
  have hpc := defined_of_step hs
  by_cases ha : ∃ connfd, a = .accept connfd
  · obtain ⟨connfd, rfl⟩ := ha
    simp only [step] at hs
    split at hs
    · rw [Option.some.injEq] at hs
      have hlt : connfd < fdSetsize ↔ ∃ fd < fdSetsize, s.isOpen fd = false :=
        Lowest.lt_iff hlow
      rw [← hs, ne_eq, accepted_pc, and_iff_right hpc, Room, ← hlt, not_and, Nat.not_le]
      rfl
    · cases hs
  · have hne : ∀ connfd, a ≠ .accept connfd := fun connfd h => ha ⟨connfd, h⟩
    refine iff_of_true (step_pc hs hne) ⟨hpc, ?_⟩
    cases a with
    | accept connfd => exact absurd rfl (hne connfd)
    | _ => trivial

/-- **Everything fits exactly if there was room at every step.** -/
theorem fits_iff_along {listenfd : Fd} {inherited : Fd → Bool} (as : List Act)
    (hs : exec (guarded step Low) (init listenfd inherited) as = some s) :
    Fits s ↔ listenfd < fdSetsize ∧ Along (guarded step Low) Room (init listenfd inherited) as := by
  have hinv : ∀ s a s', Inv s → guarded step Low s a = some s' → Inv s' :=
    fun _ _ _ h hs => inv_step h (guarded_eq_some.mp hs).2
  have hstart : (init listenfd inherited).pc ≠ .undefined ↔ listenfd < fdSetsize := by
    unfold init
    split
    · next h => exact iff_of_true (by simp) h
    · next h => exact iff_of_false (by simp) h
  have hend : Inv s :=
    exec_invariant (fun s a s' => hinv s a s') (inv_init listenfd inherited) ⟨as, hs⟩
  rw [fits_iff hend, ← hstart]
  exact exec_iff_along hinv (fun _ _ _ _ hs => step_defined_iff hs) as _ _
    (inv_init listenfd inherited) hs

end Step

/-! ### Too many clients -/

/-- `n` clients connect one after the other; the first one gets the descriptor 4. -/
def connects : ℕ → List Act := blocks fun n => [.select (· == 3), .accept (4 + n)]

/-- The standard descriptors. -/
def standard (fd : Fd) : Bool := decide (fd < 3)

/-- The server when `n` clients have connected. -/
structure Filled (n : ℕ) (s : Sys) : Prop where
  pc : s.pc = .select
  listenfd : s.listenfd = 3
  le_maxfd : 3 ≤ s.maxfd
  watched : s.allset 3 = true
  client : ∀ i, s.client i = none ↔ n ≤ i
  isOpen : ∀ fd, s.isOpen fd = decide (fd < 4 + n)

section Filled

variable {s : Sys} {n : ℕ}

theorem filled_init : Filled 0 (init 3 standard) where
  pc := rfl
  listenfd := rfl
  le_maxfd := Nat.le_refl 3
  watched := rfl
  client := fun i => iff_of_true rfl (Nat.zero_le i)
  isOpen := by
    intro (fd : ℕ)
    rcases eq_or_ne fd 3 with rfl | hne
    · rfl
    · have hiff : fd < 3 ↔ fd < 4 + 0 := by omega
      exact (Function.update_of_ne hne ..).trans (decide_eq_decide.mpr hiff)

/-- The listening socket is reported. -/
theorem Filled.select (h : Filled n s) : ∃ t, guarded step Low s (.select (· == 3)) = some t ∧
    t.pc = .accept ∧ t.nready = 1 ∧ t.listenfd = 3 ∧ t.maxfd = s.maxfd ∧ t.allset = s.allset ∧
    t.client = s.client ∧ t.isOpen = s.isOpen := by
  have hone : tally id (fun fd => decide (fd ≤ s.maxfd) && fd == 3) fdSetsize = 1 := by
    refine tally_eq_one (show 3 < fdSetsize by decide) fun fd _ => ?_
    simp only [id, Bool.and_eq_true, decide_eq_true_eq, beq_iff_eq]
    refine ⟨And.right, ?_⟩
    rintro rfl
    exact ⟨h.le_maxfd, rfl⟩
  refine ⟨s.selected fun fd => decide (fd ≤ s.maxfd) && fd == 3, ?_, ?_, ?_, h.listenfd, rfl, rfl,
    rfl, rfl⟩
  · refine guarded_eq_some.mpr ⟨trivial, if_pos ⟨h.pc, ?_, 3, h.le_maxfd, rfl⟩⟩
    intro fd _ hfd
    rw [eq_of_beq hfd]
    exact h.watched
  · simp [Sys.selected, h.listenfd, h.le_maxfd]
  · simp only [Sys.selected, hone]
    rfl

/-- The entry that a new connection gets. -/
theorem Filled.entry (h : Filled n s) (hn : n < fdSetsize) :
    first Option.isNone s.client fdSetsize = some n := by
  refine first_eq_some_of hn (by rw [(h.client n).mpr (Nat.le_refl n)]; rfl) fun j hj => ?_
  cases hc : s.client j with
  | none => exact absurd ((h.client j).mp hc) (by omega)
  | some fd => rfl

theorem Filled.lowest (h : Filled n s) : Lowest s.isOpen (4 + n) := by
  refine ⟨by rw [h.isOpen]; simp, fun j hj => ?_⟩
  rw [h.isOpen]
  exact decide_eq_true hj

/-- One more client connects. -/
theorem Filled.connect (h : Filled n s) (hn : 4 + n < fdSetsize) :
    ∃ t, exec (guarded step Low) s [.select (· == 3), .accept (4 + n)] = some t ∧
      Filled (n + 1) t := by
  obtain ⟨t, ht, hpc, hready, hlisten, hmaxfd, hallset, hclient, hopen⟩ := h.select
  have hfirst : first Option.isNone (t.serve t.listenfd).client fdSetsize = some n := by
    simp only [Sys.serve, hclient]
    exact h.entry (by omega)
  have haccepted : guarded step Low t (.accept (4 + n)) =
      some ((t.serve t.listenfd).accepted (4 + n)) := by
    refine guarded_eq_some.mpr ⟨?_, if_pos ⟨hpc, ?_⟩⟩
    · simp only [Low, hopen]
      exact h.lowest
    · rw [hopen]
      exact h.lowest.1
  have hfilled : Filled (n + 1) ((t.serve t.listenfd).accepted (4 + n)) := by
    rw [accepted_eq hfirst hn]
    refine ⟨?_, hlisten, ?_, ?_, ?_, ?_⟩
    · simp [Sys.countDown, Sys.serve, hready]
    · simp only [Sys.countDown, Sys.serve, hmaxfd]
      exact Nat.le_trans h.le_maxfd (Nat.le_max_left ..)
    · simp [Sys.countDown, Sys.serve, hallset, h.watched, Function.update_apply]
    · intro i
      simp only [Sys.countDown, Sys.serve, hclient, update_eq_iff, h.client]
      simp
      omega
    · intro (fd : ℕ)
      simp only [Sys.countDown, Sys.serve, hopen]
      rcases eq_or_ne fd (4 + n) with rfl | hne
      · simp
      · have hiff : fd < 4 + n ↔ fd < 4 + (n + 1) := by omega
        rw [Function.update_of_ne hne, h.isOpen]
        exact decide_eq_decide.mpr hiff
  exact ⟨_, exec_pair ht haccepted, hfilled⟩

/-- As many clients connect as there are descriptors for. -/
theorem filled_connects : ∀ n ≤ 1020,
    ∃ s, exec (guarded step Low) (init 3 standard) (connects n) = some s ∧ Filled n s :=
  exec_blocks filled_init fun _ hn _ hfilled =>
    hfilled.connect (Nat.add_lt_add_left hn 4)

/-- **The run of too many clients.** -/
theorem connects_undefined : ∃ s,
    exec (guarded step Low) (init 3 standard) (connects 1021) = some s ∧ s.pc = .undefined := by
  obtain ⟨s, hs, hfilled⟩ := filled_connects 1020 (Nat.le_refl _)
  obtain ⟨t, ht, hpc, -, -, -, -, hclient, hopen⟩ := hfilled.select
  have hlowest : Lowest t.isOpen 1024 := hopen ▸ hfilled.lowest
  have hundef : ((t.serve t.listenfd).accepted 1024).pc = .undefined := by
    refine accepted_pc.mpr ⟨⟨1020, by decide, ?_⟩, Nat.le_refl _⟩
    simp only [Sys.serve, hclient]
    exact (hfilled.client 1020).mpr (Nat.le_refl _)
  have haccepted : guarded step Low t (.accept (4 + 1020)) =
      some ((t.serve t.listenfd).accepted 1024) :=
    guarded_eq_some.mpr ⟨hlowest, if_pos ⟨hpc, hlowest.1⟩⟩
  exact ⟨_, (exec_append _ hs).trans (exec_pair ht haccepted), hundef⟩

end Filled

end TcpIp.Select.ClientTable

namespace TcpIp.Icmp.Daemon

open Run Table
open Select (Fd fdSetsize)
open Select.ClientTable (standard)

/-- The open descriptors of the daemon. -/
def isOpen (inherited : Fd → Bool) (s : Sys) (fd : Fd) : Bool :=
  inherited fd || fd == s.fd4 || fd == s.fd6 || fd == s.listenfd || (s.conn fd).isSome

@[inherit_doc Select.ClientTable.Low]
def Low (inherited : Fd → Bool) (s : Sys) : Act → Prop
  | .accept connfd => Lowest (isOpen inherited s) connfd
  | _ => True

instance (inherited : Fd → Bool) (s : Sys) : ∀ a, Decidable (Low inherited s a)
  | .accept connfd => inferInstanceAs (Decidable (Lowest (isOpen inherited s) connfd))
  | .select _ | .icmp _ _ _ _ | .recv _ _ | .tick | .fail => isTrue trivial

/-- The descriptors of the daemon and those in its tables are below `FD_SETSIZE`. -/
structure Small (s : Sys) : Prop where
  own : s.fd4 < fdSetsize ∧ s.fd6 < fdSetsize ∧ s.listenfd < fdSetsize
  clients : ∀ i fd, (s.client i).connfd = some fd → fd < fdSetsize
  watched : ∀ fd, s.allset fd = true → fd < fdSetsize

@[inherit_doc Select.ClientTable.Fits]
structure Fits (s : Sys) : Prop extends Small s where
  defined : s.pc ≠ .undefined

@[inherit_doc Select.ClientTable.Room]
def Room (inherited : Fd → Bool) (s : Sys) : Act → Prop
  | .accept _ => (∃ i < fdSetsize, (s.client i).connfd = none) →
      ∃ fd < fdSetsize, isOpen inherited s fd = false
  | _ => True

section Step

variable {inherited : Fd → Bool} {s s' t : Sys} {a : Act} {connfd : Fd} {pc : Pc}

/-- A step that takes in no descriptor. -/
structure Shrinks (s s' : Sys) : Prop where
  fd4 : s'.fd4 = s.fd4
  fd6 : s'.fd6 = s.fd6
  listenfd : s'.listenfd = s.listenfd
  clients : ∀ i fd, (s'.client i).connfd = some fd → (s.client i).connfd = some fd
  watched : ∀ fd, s'.allset fd = true → s.allset fd = true

theorem Shrinks.rfl : Shrinks s s := ⟨.refl _, .refl _, .refl _, fun _ _ h => h, fun _ h => h⟩

theorem Shrinks.trans (h : Shrinks s t) (h' : Shrinks t s') : Shrinks s s' :=
  ⟨h'.fd4.trans h.fd4, h'.fd6.trans h.fd6, h'.listenfd.trans h.listenfd,
    fun i fd hc => h.clients i fd (h'.clients i fd hc),
    fun fd hin => h.watched fd (h'.watched fd hin)⟩

theorem Small.mono (h : Small s) (hs : Shrinks s s') : Small s' := by
  refine ⟨?_, fun i fd hc => h.clients i fd (hs.clients i fd hc),
    fun fd hin => h.watched fd (hs.watched fd hin)⟩
  rw [hs.fd4, hs.fd6, hs.listenfd]
  exact h.own

theorem shrinks_note (s : Sys) (i : ℕ) (family lport : ℤ) :
    Shrinks s (s.note i family lport) := by
  refine ⟨rfl, rfl, rfl, fun j fd hc => ?_, fun _ h => h⟩
  rcases eq_or_ne j i with rfl | hne
  · simpa [Sys.note] using hc
  · simpa [Sys.note, hne] using hc

theorem shrinks_accepted (s : Sys) (unixfd : Fd) (p : Passed) :
    Shrinks s (s.accepted unixfd p) := by
  unfold Sys.accepted
  split <;> exact ⟨rfl, rfl, rfl, fun _ _ h => h, fun _ h => h⟩

theorem shrinks_clientdone (s : Sys) (i : ℕ) (unixfd : Fd) :
    Shrinks s (s.clientdone i unixfd) := by
  refine ⟨rfl, rfl, rfl, fun j fd hc => ?_, fun fd hin => ?_⟩
  · rcases eq_or_ne j i with rfl | hne
    · simp [Sys.clientdone] at hc
    · simpa [Sys.clientdone, hne] using hc
  · rcases eq_or_ne fd unixfd with rfl | hne
    · simp [Sys.clientdone] at hin
    · simpa [Sys.clientdone, hne] using hin

theorem shrinks_register (s : Sys) (i : ℕ) (unixfd : Fd) (d : Desc) :
    Shrinks s (s.register i unixfd d).1 := by
  unfold Sys.register
  split
  · exact .rfl
  · simp only
    split
    · split
      · exact shrinks_note ..
      · exact (shrinks_note ..).trans (shrinks_accepted ..)
    · exact (shrinks_note ..).trans (shrinks_accepted ..)

theorem shrinks_handle (s : Sys) (i : ℕ) (unixfd : Fd) (r : Received) :
    Shrinks s (s.handle i unixfd r) := by
  cases r with
  | eof => exact shrinks_clientdone ..
  | data => exact shrinks_clientdone ..
  | desc d =>
    have hreg := shrinks_register s i unixfd d
    simp only [Sys.handle]
    split
    · next hpair => rw [hpair] at hreg; exact hreg
    · next hpair => rw [hpair] at hreg; exact hreg.trans (shrinks_clientdone ..)

theorem shrinks_ret (s : Sys) (pc : Pc) : Shrinks s (s.ret pc) :=
  ⟨rfl, rfl, rfl, fun _ _ h => h, fun _ h => h⟩

theorem shrinks_exit (s : Sys) : Shrinks s s.exit :=
  ⟨rfl, rfl, rfl, fun _ _ h => h, fun _ h => h⟩

theorem ret_pc (h : pc ≠ .undefined) : (s.ret pc).pc ≠ .undefined := by
  simp only [Sys.ret]
  split
  · simp
  · exact h

theorem behindV4_pc (s : Sys) : s.behindV4 ≠ .undefined := by
  unfold Sys.behindV4
  split <;> simp

theorem behindListen_pc (s : Sys) : s.behindListen ≠ .undefined := by
  unfold Sys.behindListen
  split
  · simp
  · exact behindV4_pc s

theorem behindSelect_pc (s : Sys) : s.behindSelect ≠ .undefined := by
  unfold Sys.behindSelect
  split
  · simp
  · exact behindListen_pc s

theorem readable_shrinks (v : Ver) (msg rest : List UInt8) (fails : Option ℕ)
    (hpc : pc ≠ .undefined) : Shrinks s (s.readable v msg rest fails pc) ∧
      (s.readable v msg rest fails pc).pc ≠ .undefined := by
  unfold Sys.readable
  split
  · exact ⟨shrinks_exit s, by simp [Sys.exit]⟩
  · exact ⟨shrinks_ret s pc, ret_pc hpc⟩
  · simp only
    split
    · exact ⟨⟨rfl, rfl, rfl, fun _ _ h => h, fun _ h => h⟩, ret_pc hpc⟩
    · exact ⟨⟨rfl, rfl, rfl, fun _ _ h => h, fun _ h => h⟩, by simp [Sys.exit]⟩

theorem tick_shrinks (s : Sys) (i : ℕ) :
    Shrinks s (s.tick i) ∧ (s.tick i).pc ≠ .undefined := by
  unfold Sys.tick
  split
  · split
    · exact ⟨⟨rfl, rfl, rfl, fun _ _ h => h, fun _ h => h⟩, by simp⟩
    · refine ⟨⟨rfl, rfl, rfl, fun _ _ h => h, fun _ h => h⟩, ?_⟩
      simp only
      split <;> simp
  · exact ⟨⟨rfl, rfl, rfl, fun _ _ h => h, fun _ h => h⟩, by simp⟩

/-- There is no step behind an `FD_SET` outside of the set. -/
theorem defined_of_step (hs : step s a = some s') : s.pc ≠ .undefined := by
  intro hundef
  cases a with
  | icmp v => cases v <;> simp [step, hundef] at hs
  | _ => simp [step, hundef, Pc.calls] at hs

/-- No other step than `accept` takes in a descriptor. -/
theorem step_shrinks (hs : step s a = some s') (ha : ∀ connfd, a ≠ .accept connfd) :
    Shrinks s s' ∧ s'.pc ≠ .undefined := by
  cases next_of_step hs with
  | selected => exact ⟨⟨rfl, rfl, rfl, fun _ _ h => h, fun _ h => h⟩, behindSelect_pc _⟩
  | @accepted connfd => exact absurd rfl (ha connfd)
  | examined hpc =>
    refine readable_shrinks _ _ _ _ ?_
    rcases hpc with rfl | rfl
    · exact behindV4_pc s
    · simp
  | received =>
    unfold Sys.readableConn
    split
    · exact ⟨(shrinks_handle ..).trans (shrinks_ret ..), ret_pc (by simp)⟩
    · exact ⟨(shrinks_handle ..).trans (shrinks_exit _), by simp [Sys.exit]⟩
  | tick => exact tick_shrinks ..
  | failed => exact ⟨shrinks_exit s, by simp [Sys.exit]⟩

/-- A connection gets an entry. -/
theorem readableListen_eq {i : ℕ} (hfree : s.free = some i) (hsmall : connfd < fdSetsize) :
    s.readableListen connfd =
      { s.enter i connfd with
        allset := Function.update s.allset connfd true
        maxfd := max s.maxfd connfd
        maxi := max s.maxi i }.ret s.behindListen := by
  unfold Sys.readableListen
  rw [hfree]
  simp only
  split
  · next hbig => exact absurd hsmall (Nat.not_lt_of_le hbig)
  · rfl

/-- What `accept` leads to. -/
theorem readableListen_pc : (s.readableListen connfd).pc = .undefined ↔
    (∃ i < fdSetsize, (s.client i).connfd = none) ∧ fdSetsize ≤ connfd := by
  unfold Sys.readableListen
  split
  · next hnone =>
    have hfull := first_eq_none_iff.mp hnone
    refine iff_of_false (ret_pc (behindListen_pc s)) ?_
    rintro ⟨⟨i, hi, hfree⟩, -⟩
    have := hfull i hi
    rw [hfree] at this
    cases this
  · next i hfirst =>
    obtain ⟨hi, hfree⟩ := first_eq_some hfirst
    rw [Option.isNone_iff_eq_none] at hfree
    split
    · next hbig => exact iff_of_true rfl ⟨⟨i, hi, hfree⟩, hbig⟩
    · next hsmall => exact iff_of_false (ret_pc (behindListen_pc s)) fun h => hsmall h.2

/-- `accept` keeps to the set if what it returns is in it. -/
theorem Small.readableListen (h : Small s) (hpc : (s.readableListen connfd).pc ≠ .undefined) :
    Small (s.readableListen connfd) := by
  cases hfree : s.free with
  | none =>
    have hfull : s.readableListen connfd = { s with conns := s.conns + 1 }.ret s.behindListen := by
      unfold Sys.readableListen
      rw [hfree]
    rw [hfull]
    exact h.mono ⟨rfl, rfl, rfl, fun _ _ h => h, fun _ h => h⟩
  | some i =>
    have hsmall : connfd < fdSetsize := by
      obtain ⟨hi, hnone⟩ := first_eq_some hfree
      rw [Option.isNone_iff_eq_none] at hnone
      exact Nat.lt_of_not_le fun hbig => hpc (readableListen_pc.mpr ⟨⟨i, hi, hnone⟩, hbig⟩)
    rw [readableListen_eq hfree hsmall]
    refine ⟨h.own, fun j fd hc => ?_, fun fd hin => ?_⟩
    · rcases eq_or_ne j i with rfl | hne
      · simp only [Sys.ret, Sys.enter, Function.update_self, Option.some.injEq] at hc
        exact hc ▸ hsmall
      · simp only [Sys.ret, Sys.enter, Function.update_of_ne hne] at hc
        exact h.clients j fd hc
    · rcases eq_or_ne fd connfd with rfl | hne
      · exact hsmall
      · simp only [Sys.ret, Sys.enter, Function.update_of_ne hne] at hin
        exact h.watched fd hin

/-- What holds throughout a run. -/
theorem small_step (h : s.pc = .undefined ∨ Small s) (hs : step s a = some s') :
    s'.pc = .undefined ∨ Small s' := by
  have hpc := defined_of_step hs
  have hsmall := h.resolve_left hpc
  by_cases ha : ∃ connfd, a = .accept connfd
  · obtain ⟨connfd, rfl⟩ := ha
    simp only [step] at hs
    split at hs
    · rw [Option.some.injEq] at hs
      rw [← hs]
      exact or_iff_not_imp_left.mpr hsmall.readableListen
    · cases hs
  · exact .inr (hsmall.mono (step_shrinks hs fun connfd h => ha ⟨connfd, h⟩).1)

/-- **A step keeps to the set exactly if there is room.** -/
theorem step_defined_iff (hs : guarded step (Low inherited) s a = some s') :
    s'.pc ≠ .undefined ↔ s.pc ≠ .undefined ∧ Room inherited s a := by
  obtain ⟨hlow, hs⟩ := guarded_eq_some.mp hs
  have hpc := defined_of_step hs
  by_cases ha : ∃ connfd, a = .accept connfd
  · obtain ⟨connfd, rfl⟩ := ha
    simp only [step] at hs
    split at hs
    · rw [Option.some.injEq] at hs
      have hlt : connfd < fdSetsize ↔ ∃ fd < fdSetsize, isOpen inherited s fd = false :=
        Lowest.lt_iff hlow
      rw [← hs, ne_eq, readableListen_pc, and_iff_right hpc, Room, ← hlt, not_and, Nat.not_le]
    · cases hs
  · have hne : ∀ connfd, a ≠ .accept connfd := fun connfd h => ha ⟨connfd, h⟩
    refine iff_of_true (step_shrinks hs hne).2 ⟨hpc, ?_⟩
    cases a with
    | accept connfd => exact absurd rfl (hne connfd)
    | _ => trivial

theorem fits_iff (h : s.pc = .undefined ∨ Small s) : Fits s ↔ s.pc ≠ .undefined :=
  ⟨Fits.defined, fun hpc => ⟨h.resolve_left hpc, hpc⟩⟩

theorem small_init (fd4 fd6 listenfd : Fd) :
    (init fd4 fd6 listenfd).pc = .undefined ∨ Small (init fd4 fd6 listenfd) := by
  by_cases hlt : max (max fd4 fd6) listenfd < fdSetsize
  · right
    have hown : (fd4 < fdSetsize ∧ fd6 < fdSetsize) ∧ listenfd < fdSetsize := by
      simpa only [Nat.max_lt] using hlt
    refine ⟨⟨hown.1.1, hown.1.2, hown.2⟩, fun i fd hc => ?_, fun fd hin => ?_⟩
    · cases hc
    · simp only [init, Bool.or_eq_true, beq_iff_eq] at hin
      rcases hin with (rfl | rfl) | rfl
      · exact hown.1.1
      · exact hown.1.2
      · exact hown.2
  · exact .inl (if_neg hlt)

/-- **Everything fits exactly if there was room at every step.** -/
theorem fits_iff_along {fd4 fd6 listenfd : Fd} (as : List Act)
    (hs : exec (guarded step (Low inherited)) (init fd4 fd6 listenfd) as = some s) :
    Fits s ↔ (fd4 < fdSetsize ∧ fd6 < fdSetsize ∧ listenfd < fdSetsize) ∧
      Along (guarded step (Low inherited)) (Room inherited) (init fd4 fd6 listenfd) as := by
  have hinv : ∀ s a s', (s.pc = .undefined ∨ Small s) →
      guarded step (Low inherited) s a = some s' → (s'.pc = .undefined ∨ Small s') :=
    fun _ _ _ h hs => small_step h (guarded_eq_some.mp hs).2
  have hstart : (init fd4 fd6 listenfd).pc ≠ .undefined ↔
      fd4 < fdSetsize ∧ fd6 < fdSetsize ∧ listenfd < fdSetsize := by
    rw [← and_assoc, ← Nat.max_lt, ← Nat.max_lt]
    unfold init
    simp only
    split
    · next h => exact iff_of_true (by simp) h
    · next h => exact iff_of_false (by simp) h
  have hend := exec_invariant (fun s a s' => hinv s a s') (small_init fd4 fd6 listenfd) ⟨as, hs⟩
  rw [fits_iff hend, ← hstart]
  exact exec_iff_along hinv (fun _ _ _ _ hs => step_defined_iff hs) as _ _
    (small_init fd4 fd6 listenfd) hs

end Step

/-! ### Too many clients of the daemon -/

/-- `n` clients connect one after the other; the first one gets the descriptor 6. -/
def connects : ℕ → List Act := blocks fun n => [.select (· == 5), .accept (6 + n)]

/-- The daemon when `n` clients have connected. -/
structure Filled (n : ℕ) (s : Sys) : Prop where
  pc : s.pc = .select
  fd4 : s.fd4 = 3
  fd6 : s.fd6 = 4
  listenfd : s.listenfd = 5
  le_maxfd : 5 ≤ s.maxfd
  watched : s.allset 5 = true
  client : ∀ i, (s.client i).connfd = none ↔ n ≤ i
  conn : ∀ fd, s.conn fd = none ↔ fd < 6 ∨ 6 + n ≤ fd

section Filled

variable {s : Sys} {n : ℕ}

theorem filled_init : Filled 0 (init 3 4 5) where
  pc := rfl
  fd4 := rfl
  fd6 := rfl
  listenfd := rfl
  le_maxfd := Nat.le_refl 5
  watched := rfl
  client := fun i => iff_of_true rfl (Nat.zero_le i)
  conn := fun fd => iff_of_true rfl (Nat.lt_or_ge fd 6)

/-- The listening socket is reported. -/
theorem Filled.select (h : Filled n s) :
    ∃ t, guarded step (Low standard) s (.select (· == 5)) = some t ∧ t.pc = .listen ∧
      t.nready = 1 ∧ t.fd4 = 3 ∧ t.fd6 = 4 ∧ t.listenfd = 5 ∧ t.maxfd = s.maxfd ∧
      t.allset = s.allset ∧ t.client = s.client ∧ t.conn = s.conn := by
  have hone : tally id (fun fd => decide (fd ≤ s.maxfd) && fd == 5) fdSetsize = 1 := by
    refine tally_eq_one (show 5 < fdSetsize by decide) fun fd _ => ?_
    simp only [id, Bool.and_eq_true, decide_eq_true_eq, beq_iff_eq]
    refine ⟨And.right, ?_⟩
    rintro rfl
    exact ⟨h.le_maxfd, rfl⟩
  refine ⟨s.selected fun fd => decide (fd ≤ s.maxfd) && fd == 5, ?_, ?_, ?_, h.fd4, h.fd6,
    h.listenfd, rfl, rfl, rfl, rfl⟩
  · refine guarded_eq_some.mpr ⟨trivial, if_pos ⟨h.pc, ?_, 5, h.le_maxfd, rfl⟩⟩
    intro fd _ hfd
    rw [eq_of_beq hfd]
    exact h.watched
  · simp [Sys.selected, Sys.behindSelect, h.listenfd, h.le_maxfd]
  · simp only [Sys.selected, hone]
    rfl

/-- The entry that a new connection gets. -/
theorem Filled.entry (h : Filled n s) (hn : n < fdSetsize) : s.free = some n := by
  refine first_eq_some_of hn (by rw [(h.client n).mpr (Nat.le_refl n)]; rfl) fun j hj => ?_
  cases hc : (s.client j).connfd with
  | none => exact absurd ((h.client j).mp hc) (by omega)
  | some fd => rfl

theorem Filled.isOpen_iff (h : Filled n s) (fd : Fd) :
    isOpen standard s fd = true ↔ fd < 6 + n := by
  have hiff (fd : ℕ) :
      (fd < 3 ∨ fd = 3 ∨ fd = 4 ∨ fd = 5 ∨ ¬(fd < 6 ∨ 6 + n ≤ fd)) ↔ fd < 6 + n := by omega
  simp only [isOpen, standard, h.fd4, h.fd6, h.listenfd, Bool.or_eq_true, decide_eq_true_eq,
    beq_iff_eq, Option.isSome_iff_ne_none, ne_eq, h.conn, or_assoc]
  exact hiff fd

/-- The descriptor that a new connection gets. -/
theorem Filled.lowest (h : Filled n s) : Lowest (isOpen standard s) (6 + n) := by
  refine ⟨Bool.eq_false_iff.mpr fun hopen => ?_, fun fd hfd => (h.isOpen_iff fd).mpr hfd⟩
  exact absurd ((h.isOpen_iff _).mp hopen) (Nat.lt_irrefl _)

/-- `accept` may return it. -/
theorem Filled.accept (h : Filled n s) {t : Sys} (hpc : t.pc = .listen) (h4 : t.fd4 = 3)
    (h6 : t.fd6 = 4) (hlisten : t.listenfd = 5) (hconn : t.conn = s.conn) :
    guarded step (Low standard) t (.accept (6 + n)) = some (t.readableListen (6 + n)) := by
  have hopen : isOpen standard t = isOpen standard s := by
    funext fd
    simp only [isOpen, h4, h6, hlisten, hconn, h.fd4, h.fd6, h.listenfd]
  refine guarded_eq_some.mpr ⟨?_, if_pos ⟨hpc, ?_, ?_⟩⟩
  · simp only [Low, hopen]
    exact h.lowest
  · rw [hconn]
    exact (h.conn _).mpr (.inr (Nat.le_refl _))
  · have hne : ¬(6 + n = 3 ∨ 6 + n = 4 ∨ 6 + n = 5) := by omega
    simpa only [h4, h6, hlisten, List.mem_cons, List.not_mem_nil, or_false] using hne

/-- One more client connects. -/
theorem Filled.connect (h : Filled n s) (hn : 6 + n < fdSetsize) :
    ∃ t, exec (guarded step (Low standard)) s [.select (· == 5), .accept (6 + n)] = some t ∧
      Filled (n + 1) t := by
  obtain ⟨t, ht, hpc, hready, h4, h6, hlisten, hmaxfd, hallset, hclient, hconn⟩ := h.select
  have hfree : t.free = some n := by
    simp only [Sys.free, hclient]
    exact h.entry (by omega)
  have hfilled : Filled (n + 1) (t.readableListen (6 + n)) := by
    rw [readableListen_eq hfree hn]
    refine ⟨?_, h4, h6, hlisten, ?_, ?_, ?_, ?_⟩
    · simp [Sys.ret, Sys.enter, hready]
    · simp only [Sys.ret, Sys.enter, hmaxfd]
      exact Nat.le_trans h.le_maxfd (Nat.le_max_left ..)
    · simp [Sys.ret, Sys.enter, hallset, h.watched, Function.update_apply]
    · intro i
      rcases eq_or_ne i n with rfl | hne
      · simp [Sys.ret, Sys.enter]
      · simp only [Sys.ret, Sys.enter, hclient, Function.update_of_ne hne, h.client]
        omega
    · intro fd
      have hiff (fd : ℕ) (hne : fd ≠ 6 + n) :
          (fd < 6 ∨ 6 + n ≤ fd) ↔ (fd < 6 ∨ 6 + (n + 1) ≤ fd) := by omega
      rcases eq_or_ne fd (6 + n) with rfl | hne
      · have hout : ¬(6 + n < 6 ∨ 6 + (n + 1) ≤ 6 + n) := by omega
        exact iff_of_false (by simp [Sys.ret, Sys.enter]) hout
      · simp only [Sys.ret, Sys.enter, hconn, Function.update_of_ne hne, h.conn]
        exact hiff fd hne
  exact ⟨_, exec_pair ht (h.accept hpc h4 h6 hlisten hconn), hfilled⟩

/-- As many clients connect as there are descriptors for. -/
theorem filled_connects : ∀ n ≤ 1018,
    ∃ s, exec (guarded step (Low standard)) (init 3 4 5) (connects n) = some s ∧ Filled n s :=
  exec_blocks filled_init fun _ hn _ hfilled =>
    hfilled.connect (Nat.add_lt_add_left hn 6)

/-- **The run of too many clients.** -/
theorem connects_undefined : ∃ s,
    exec (guarded step (Low standard)) (init 3 4 5) (connects 1019) = some s ∧
      s.pc = .undefined := by
  obtain ⟨s, hs, hfilled⟩ := filled_connects 1018 (Nat.le_refl _)
  obtain ⟨t, ht, hpc, -, h4, h6, hlisten, -, -, hclient, hconn⟩ := hfilled.select
  have hundef : (t.readableListen (6 + 1018)).pc = .undefined := by
    refine readableListen_pc.mpr ⟨⟨1018, by decide, ?_⟩, Nat.le_refl _⟩
    rw [hclient]
    exact (hfilled.client 1018).mpr (Nat.le_refl _)
  exact ⟨_, (exec_append _ hs).trans (exec_pair ht (hfilled.accept hpc h4 h6 hlisten hconn)),
    hundef⟩

end Filled

end TcpIp.Icmp.Daemon

namespace TcpIp.Select

open Run

/-- **Descriptors are kept to the sets exactly as long as there are some left**: at the end
of every run of `tcpservselect01`, and of every run of `icmpd`, under a kernel that gives out
the lowest descriptor that is not in use, `FD_SET` and `FD_ISSET` have been applied to
descriptors below `FD_SETSIZE` only, and the connections that do not fit have been turned
down, exactly if the sockets made before the loop are below `FD_SETSIZE` and every connection
that found a free entry in `client[]` found a descriptor below `FD_SETSIZE` too. -/
theorem fits_iff_room (inherited : Fd → Bool) :
    (∀ listenfd as s,
      exec (guarded ClientTable.step ClientTable.Low) (ClientTable.init listenfd inherited) as =
        some s →
      (ClientTable.Fits s ↔ listenfd < fdSetsize ∧
        Along (guarded ClientTable.step ClientTable.Low) ClientTable.Room
          (ClientTable.init listenfd inherited) as)) ∧
    ∀ fd4 fd6 listenfd as s,
      exec (guarded Icmp.Daemon.step (Icmp.Daemon.Low inherited))
        (Icmp.Daemon.init fd4 fd6 listenfd) as = some s →
      (Icmp.Daemon.Fits s ↔ (fd4 < fdSetsize ∧ fd6 < fdSetsize ∧ listenfd < fdSetsize) ∧
        Along (guarded Icmp.Daemon.step (Icmp.Daemon.Low inherited)) (Icmp.Daemon.Room inherited)
          (Icmp.Daemon.init fd4 fd6 listenfd) as) :=
  ⟨fun _ as _ hs => ClientTable.fits_iff_along as hs,
    fun _ _ _ as _ hs => Icmp.Daemon.fits_iff_along as hs⟩

/-- **Too many clients**: both programs are started with the three standard descriptors.  With
1021 clients the server, and with 1019 clients the daemon, applies `FD_SET` to the descriptor
1024, for which there was a free entry. -/
theorem many_clients :
    (∃ s, exec (guarded ClientTable.step ClientTable.Low)
        (ClientTable.init 3 ClientTable.standard) (ClientTable.connects 1021) = some s ∧
      s.pc = .undefined ∧ ¬ClientTable.Fits s) ∧
    ∃ s, exec (guarded Icmp.Daemon.step (Icmp.Daemon.Low ClientTable.standard))
        (Icmp.Daemon.init 3 4 5) (Icmp.Daemon.connects 1019) = some s ∧
      s.pc = .undefined ∧ ¬Icmp.Daemon.Fits s := by
  obtain ⟨s, hs, hundef⟩ := ClientTable.connects_undefined
  obtain ⟨t, ht, hundef'⟩ := Icmp.Daemon.connects_undefined
  exact ⟨⟨s, hs, hundef, fun hfits => hfits.defined hundef⟩,
    ⟨t, ht, hundef', fun hfits => hfits.defined hundef'⟩⟩

end TcpIp.Select
