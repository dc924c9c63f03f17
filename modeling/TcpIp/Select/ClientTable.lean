import TcpIp.Lib.Table
import TcpIp.Select.Server

/-!
# The client table of the server over `select`

`tcpcliserv/tcpservselect01.c` keeps its clients in an array `client[]`, next to the set
`allset` of the descriptors that `select` is to watch, the highest descriptor `maxfd`,
the highest index in use `maxi`, and `nready`, the number of ready descriptors that are
still to be served, by which it knows when to stop going through the array.

An action is one system call with what the kernel chose, or a step of the loop over the
array.  What is read and echoed is left out.  A component `served` counts, for each
descriptor, how often it has been served since the last `select`; no step reads it.

`FD_SET` writes outside of the set for a descriptor that is not below `FD_SETSIZE`.
Nothing is known of the program after that, so that such a run ends in `Pc.undefined`.

## Main definitions

* `Sys`, `Act`, `step`, `init` — the server.
* `Consistent` — the table, the set and the two marks agree.
* `Scan` — what is true while the loop goes through the array.

## Main results

* `table_at_select` — at every call of `Select` the table is consistent, and every
  descriptor reported by the one before has been served exactly once.
-/

namespace TcpIp.Select.ClientTable

open Run Table

/-- Where the server is. -/
inductive Pc where
  /-- About to call `Select`. -/
  | select
  /-- In `Accept`. -/
  | accept
  /-- At the head of the loop over `client[]`. -/
  | scan (i : ℕ)
  /-- `client[i]` is `sockfd`, which is readable: in `Read`. -/
  | read (i : ℕ) (sockfd : Fd)
  /-- In `Writen`. -/
  | writen (i : ℕ) (sockfd : Fd)
  /-- Left through `err_sys` or `err_quit`. -/
  | exited
  /-- Behind an `FD_SET` outside of the set. -/
  | undefined
  deriving DecidableEq, Repr

/-- The server and its descriptors. -/
structure Sys where
  pc : Pc
  listenfd : Fd
  maxfd : Fd
  maxi : ℤ
  nready : ℤ
  /-- `client[]`, with `none` for `-1`. -/
  client : ℕ → Option Fd
  allset : Fd → Bool
  rset : Fd → Bool
  /-- The open descriptors of the process. -/
  isOpen : Fd → Bool
  /-- How often a descriptor has been served since the last `select`. -/
  served : Fd → ℕ

inductive Act where
  /-- `select` reports these descriptors. -/
  | select (ready : Fd → Bool)
  /-- `select` fails. -/
  | selectFail
  /-- `accept` returns this descriptor. -/
  | accept (connfd : Fd)
  /-- `accept` fails. -/
  | acceptFail (e : Errno)
  /-- `read` returns some bytes. -/
  | read
  /-- `read` finds the end of file; `close` succeeds or fails. -/
  | eof (ok : Bool)
  /-- `read` fails. -/
  | readFail
  /-- `writen` succeeds or fails. -/
  | writen (ok : Bool)
  /-- The loop over `client[]` goes on. -/
  | tick

namespace Sys

/-- `err_sys` and `err_quit`. -/
def exit (s : Sys) : Sys := { s with pc := .exited }

/-- A descriptor is served. -/
def serve (s : Sys) (fd : Fd) : Sys :=
  { s with served := Function.update s.served fd (s.served fd + 1) }

/-- `if (--nready <= 0)` leave, or else go on at `i`. -/
def countDown (s : Sys) (i : ℕ) : Sys :=
  { s with nready := s.nready - 1, pc := if s.nready - 1 ≤ 0 then .select else .scan i }

/-- `main` after `Accept` has returned `connfd`. -/
def accepted (s : Sys) (connfd : Fd) : Sys :=
  match first Option.isNone s.client fdSetsize with
  | none => s.exit
  | some i =>
    if fdSetsize ≤ connfd then { s with pc := .undefined }
    else
      { s with
        client := Function.update s.client i (some connfd)
        allset := Function.update s.allset connfd true
        maxfd := max s.maxfd connfd
        maxi := max s.maxi i
        isOpen := Function.update s.isOpen connfd true }.countDown 0

/-- `Close`, `FD_CLR` and the release of the entry. -/
def drop (s : Sys) (i : ℕ) (sockfd : Fd) : Sys :=
  { s with
    isOpen := Function.update s.isOpen sockfd false
    allset := Function.update s.allset sockfd false
    client := Function.update s.client i none }

/-- The loop over `client[]`. -/
def tick (s : Sys) : Option Sys :=
  match s.pc with
  | .scan i =>
    if (i : ℤ) ≤ s.maxi then
      match s.client i with
      | none => some { s with pc := .scan (i + 1) }
      | some sockfd =>
        if s.rset sockfd then some { s with pc := .read i sockfd }
        else some { s with pc := .scan (i + 1) }
    else some { s with pc := .select }
  | _ => none

end Sys

/-- `Select` has reported the descriptors of `rset`. -/
def Sys.selected (s : Sys) (rset : Fd → Bool) : Sys :=
  { s with
    rset
    nready := tally id rset fdSetsize
    served := fun _ => 0
    pc := if rset s.listenfd then .accept else .scan 0 }

/-- The transition function.  `select` may report any of the watched descriptors up to
`maxfd`, and `accept` may return any descriptor that is not open. -/
def step (s : Sys) : Act → Option Sys
  | .select ready =>
    if s.pc = .select ∧ (∀ fd ≤ s.maxfd, ready fd = true → s.allset fd = true) ∧
        ∃ fd ≤ s.maxfd, ready fd = true then
      some (s.selected fun fd => decide (fd ≤ s.maxfd) && ready fd)
    else none
  | .selectFail => if s.pc = .select then some s.exit else none
  | .accept connfd =>
    if s.pc = .accept ∧ s.isOpen connfd = false then some ((s.serve s.listenfd).accepted connfd)
    else none
  | .acceptFail e =>
    if s.pc = .accept then
      -- `Accept` calls `accept` again if the connection was aborted
      if e = .eproto ∨ e = .econnaborted then some s else some s.exit
    else none
  | .read =>
    match s.pc with
    | .read i sockfd => some { s.serve sockfd with pc := .writen i sockfd }
    | _ => none
  | .eof ok =>
    match s.pc with
    | .read i sockfd =>
      if ok then some (((s.serve sockfd).drop i sockfd).countDown (i + 1)) else some s.exit
    | _ => none
  | .readFail =>
    match s.pc with
    | .read _ _ => some s.exit
    | _ => none
  | .writen ok =>
    match s.pc with
    | .writen i _ => if ok then some (s.countDown (i + 1)) else some s.exit
    | _ => none
  | .tick => s.tick

/-- The server as it enters its loop, with the descriptors it has inherited. -/
def init (listenfd : Fd) (inherited : Fd → Bool) : Sys where
  pc := if listenfd < fdSetsize then .select else .undefined
  listenfd := listenfd
  maxfd := listenfd
  maxi := -1
  nready := 0
  client := fun _ => none
  allset := Function.update (fun _ => false) listenfd true
  rset := fun _ => false
  isOpen := Function.update inherited listenfd true
  served := fun _ => 0

/-- What a step does. -/
inductive Next (s : Sys) : Act → Sys → Prop where
  | selected {ready} (hpc : s.pc = .select)
      (hin : ∀ fd ≤ s.maxfd, ready fd = true → s.allset fd = true) :
      Next s (.select ready) (s.selected fun fd => decide (fd ≤ s.maxfd) && ready fd)
  | accepted {connfd} (hpc : s.pc = .accept) (hnew : s.isOpen connfd = false) :
      Next s (.accept connfd) ((s.serve s.listenfd).accepted connfd)
  | again {e} (hpc : s.pc = .accept) : Next s (.acceptFail e) s
  | read {i sockfd} (hpc : s.pc = .read i sockfd) :
      Next s .read { s.serve sockfd with pc := .writen i sockfd }
  | closed {i sockfd ok} (hpc : s.pc = .read i sockfd) :
      Next s (.eof ok) (((s.serve sockfd).drop i sockfd).countDown (i + 1))
  | written {i sockfd ok} (hpc : s.pc = .writen i sockfd) :
      Next s (.writen ok) (s.countDown (i + 1))
  | tick {s'} (hs : s.tick = some s') : Next s .tick s'
  | exit {a} (hpc : s.pc ≠ .undefined) : Next s a s.exit

/-- **There are no other steps.** -/
theorem next_of_step {s s' : Sys} {a : Act} (hs : step s a = some s') : Next s a s' := by
  cases a with
  | select ready =>
    simp only [step] at hs
    split at hs <;> cases hs
    next hguard => exact .selected hguard.1 hguard.2.1
  | selectFail =>
    simp only [step] at hs
    split at hs <;> cases hs
    next hpc => exact .exit (by rw [hpc]; simp)
  | accept connfd =>
    simp only [step] at hs
    split at hs
    · next hguard =>
      rw [Option.some.injEq] at hs
      exact hs ▸ .accepted hguard.1 hguard.2
    · cases hs
  | acceptFail e =>
    simp only [step] at hs
    split at hs
    · next hpc =>
      split at hs <;> cases hs
      · exact .again hpc
      · exact .exit (by rw [hpc]; simp)
    · cases hs
  | read =>
    simp only [step] at hs
    split at hs <;> cases hs
    next hpc => exact .read hpc
  | eof ok =>
    simp only [step] at hs
    split at hs
    · next hpc =>
      split at hs <;> cases hs
      · exact .closed hpc
      · exact .exit (by rw [hpc]; simp)
    · cases hs
  | readFail =>
    simp only [step] at hs
    split at hs <;> cases hs
    next hpc => exact .exit (by rw [hpc]; simp)
  | writen ok =>
    simp only [step] at hs
    split at hs
    · next hpc =>
      split at hs <;> cases hs
      · exact .written hpc
      · exact .exit (by rw [hpc]; simp)
    · cases hs
  | tick => exact .tick hs

/-- No step is known behind an undefined one. -/
theorem defined_of_step {s s' : Sys} {a : Act} (hs : step s a = some s') : s.pc ≠ .undefined := by
  intro hpc
  cases a <;> simp [step, Sys.tick, hpc] at hs

/-! ### The table -/

/-- The table, the set and the two marks agree. -/
structure Consistent (s : Sys) : Prop where
  listed : ∀ fd, s.allset fd = true ↔ fd = s.listenfd ∨ ∃ i < fdSetsize, s.client i = some fd
  distinct : ∀ i < fdSetsize, ∀ j < fdSetsize, ∀ fd,
    s.client i = some fd → s.client j = some fd → i = j
  notListen : ∀ i < fdSetsize, s.client i ≠ some s.listenfd
  opened : ∀ fd, s.allset fd = true → s.isOpen fd = true
  above : ∀ i < fdSetsize, s.maxi < i → s.client i = none
  maxi_lt : s.maxi < fdSetsize
  le_maxfd : ∀ fd, s.allset fd = true → fd ≤ s.maxfd
  small : ∀ fd, s.allset fd = true → fd < fdSetsize

section Table

variable {s : Sys} {i : ℕ} {fd connfd sockfd : Fd}

theorem Consistent.mem_allset (h : Consistent s) (hi : i < fdSetsize) (hc : s.client i = some fd) :
    s.allset fd = true := (h.listed fd).mpr (.inr ⟨i, hi, hc⟩)

/-- An entry is taken for a new connection. -/
theorem Consistent.insert (h : Consistent s) (hi : i < fdSetsize) (hfree : s.client i = none)
    (hnew : s.isOpen connfd = false) (hsmall : connfd < fdSetsize) :
    Consistent { s with
      client := Function.update s.client i (some connfd)
      allset := Function.update s.allset connfd true
      maxfd := max s.maxfd connfd
      maxi := max s.maxi i
      isOpen := Function.update s.isOpen connfd true } := by
  have hnot : s.allset connfd ≠ true := fun hin => by rw [h.opened connfd hin] at hnew; cases hnew
  have hclient : ∀ {j fd}, Function.update s.client i (some connfd) j = some fd ↔
      j = i ∧ connfd = fd ∨ j ≠ i ∧ s.client j = some fd := by
    intro j fd
    rw [update_eq_iff, Option.some.injEq]
  have hin : ∀ {fd}, Function.update s.allset connfd true fd = true →
      fd = connfd ∨ s.allset fd = true := fun hfd => (update_eq_iff.mp hfd).imp And.left And.right
  refine ⟨?_, ?_, ?_, ?_, ?_, ?_, ?_, ?_⟩
  · intro fd
    constructor
    · intro hfd
      obtain rfl | hfd := hin hfd
      · exact .inr ⟨i, hi, hclient.mpr (.inl ⟨rfl, rfl⟩)⟩
      · refine ((h.listed fd).mp hfd).imp_right ?_
        rintro ⟨j, hj, hc⟩
        have hji : j ≠ i := by
          rintro rfl
          rw [hfree] at hc
          cases hc
        exact ⟨j, hj, hclient.mpr (.inr ⟨hji, hc⟩)⟩
    · intro hfd
      rcases eq_or_ne fd connfd with rfl | hne
      · exact Function.update_self ..
      · simp only [Function.update_of_ne hne]
        refine (h.listed fd).mpr (hfd.imp_right ?_)
        rintro ⟨j, hj, hc⟩
        obtain ⟨-, heq⟩ | ⟨-, hc⟩ := hclient.mp hc
        · exact absurd heq.symm hne
        · exact ⟨j, hj, hc⟩
  · intro j hj k hk fd hcj hck
    obtain ⟨hji, heq⟩ | ⟨-, holdj⟩ := hclient.mp hcj
    · obtain ⟨hki, -⟩ | ⟨-, holdk⟩ := hclient.mp hck
      · exact hji.trans hki.symm
      · exact absurd (h.mem_allset hk (heq ▸ holdk)) hnot
    · obtain ⟨-, heq⟩ | ⟨-, holdk⟩ := hclient.mp hck
      · exact absurd (h.mem_allset hj (heq ▸ holdj)) hnot
      · exact h.distinct j hj k hk fd holdj holdk
  · intro j hj hc
    obtain ⟨-, heq⟩ | ⟨-, hc⟩ := hclient.mp hc
    · exact hnot (by rw [heq]; exact (h.listed s.listenfd).mpr (.inl rfl))
    · exact h.notListen j hj hc
  · intro fd hfd
    rcases eq_or_ne fd connfd with rfl | hne
    · exact Function.update_self ..
    · simp only [Function.update_of_ne hne] at hfd ⊢
      exact h.opened fd hfd
  · intro j hj hlt
    have hji : j ≠ i := by
      rintro rfl
      simp only at hlt
      omega
    simp only [Function.update_of_ne hji]
    exact h.above j hj (by simp only at hlt; omega)
  · have hlt := h.maxi_lt
    simp only
    omega
  · intro fd hfd
    obtain rfl | hfd := hin hfd
    · exact Nat.le_max_right ..
    · exact (h.le_maxfd fd hfd).trans (Nat.le_max_left ..)
  · intro fd hfd
    obtain rfl | hfd := hin hfd
    · exact hsmall
    · exact h.small fd hfd

/-- An entry is released. -/
theorem Consistent.drop (h : Consistent s) (hi : i < fdSetsize) (hc : s.client i = some sockfd) :
    Consistent (s.drop i sockfd) := by
  have hlisten : sockfd ≠ s.listenfd := fun heq => h.notListen i hi (heq ▸ hc)
  have hold : ∀ {j fd}, Function.update s.client i none j = some fd →
      j ≠ i ∧ s.client j = some fd := fun hj => (update_eq_iff.mp hj).resolve_left (by simp)
  have hin : ∀ {fd}, (s.drop i sockfd).allset fd = true → fd ≠ sockfd ∧ s.allset fd = true :=
    fun hfd => (update_eq_iff.mp hfd).resolve_left (by simp)
  refine ⟨?_, ?_, ?_, ?_, ?_, ?_, ?_, ?_⟩
  · intro fd
    constructor
    · intro hfd
      obtain ⟨hne, hfd⟩ := hin hfd
      rcases (h.listed fd).mp hfd with heq | ⟨j, hj, hcj⟩
      · exact .inl heq
      · have hji : j ≠ i := by
          rintro rfl
          rw [hc, Option.some.injEq] at hcj
          exact hne hcj.symm
        exact .inr ⟨j, hj, by simpa [Sys.drop, hji] using hcj⟩
    · intro hfd
      have hne : fd ≠ sockfd := by
        rintro rfl
        rcases hfd with heq | ⟨j, hj, hcj⟩
        · exact hlisten heq
        · obtain ⟨hji, hcj⟩ := hold hcj
          exact hji (h.distinct j hj i hi fd hcj hc)
      have hfd' : s.allset fd = true := by
        refine (h.listed fd).mpr (hfd.imp_right ?_)
        rintro ⟨j, hj, hcj⟩
        exact ⟨j, hj, (hold hcj).2⟩
      simpa [Sys.drop, hne] using hfd'
  · intro j hj k hk fd hcj hck
    exact h.distinct j hj k hk fd (hold hcj).2 (hold hck).2
  · intro j hj hcj
    exact h.notListen j hj (hold hcj).2
  · intro fd hfd
    obtain ⟨hne, hfd⟩ := hin hfd
    simpa [Sys.drop, hne] using h.opened fd hfd
  · intro j hj hlt
    rcases eq_or_ne j i with rfl | hji
    · simp [Sys.drop]
    · simpa [Sys.drop, hji] using h.above j hj hlt
  · exact h.maxi_lt
  · exact fun fd hfd => h.le_maxfd fd (hin hfd).2
  · exact fun fd hfd => h.small fd (hin hfd).2

end Table

/-! ### A round -/

/-- The descriptor has been reported and not been served yet. -/
def Sys.owed (s : Sys) (fd : Fd) : Bool := s.rset fd && s.served fd == 0

/-- What is true while the loop is at the entry `i`. -/
structure Scan (s : Sys) (i : ℕ) : Prop where
  once : ∀ fd, s.served fd ≤ 1
  only : ∀ fd, s.served fd ≠ 0 → s.rset fd = true
  /-- Whatever is owed is still to be met in the loop. -/
  ahead : ∀ fd, s.owed fd = true → ∃ j < fdSetsize, i ≤ j ∧ s.client j = some fd
  fresh : ∀ j < fdSetsize, i ≤ j → ∀ fd, s.client j = some fd → s.served fd = 0

/-- Every descriptor that was reported has been served exactly once, and no other. -/
def Done (s : Sys) : Prop := ∀ fd, s.served fd = if s.rset fd then 1 else 0

/-- `nready` counts the descriptors that are owed. -/
def Sys.count (s : Sys) : ℤ := tally id s.owed fdSetsize

/-- What is true of a round, by where the server is. -/
def Round (s : Sys) : Prop :=
  match s.pc with
  | .select => Done s
  | .accept => s.rset s.listenfd = true ∧ (∀ fd, s.served fd = 0) ∧
      (∀ fd, s.rset fd = true → s.allset fd = true) ∧ s.nready = s.count
  | .scan i => Scan s i ∧ s.nready = s.count
  | .read i sockfd => Scan s i ∧ s.nready = s.count ∧ i < fdSetsize ∧
      s.client i = some sockfd ∧ s.rset sockfd = true
  | .writen i _ => Scan s (i + 1) ∧ s.nready = s.count + 1
  | .exited => True
  | .undefined => True

section Round

variable {s : Sys} {i : ℕ} {fd sockfd : Fd}

/-- A round is over when nothing is owed. -/
theorem Scan.done (h : Scan s i) (hnone : ∀ fd, s.owed fd = false) : Done s := by
  intro fd
  have hfd := hnone fd
  have hle := h.once fd
  cases hr : s.rset fd with
  | true =>
    simp only [Sys.owed, hr, Bool.true_and, beq_eq_false_iff_ne] at hfd
    rw [if_pos rfl]
    omega
  | false =>
    by_contra hne
    rw [h.only fd hne] at hr
    cases hr

/-- The count comes to zero only when nothing is owed. -/
theorem Scan.done_of_count (h : Scan s i) (hcon : Consistent s) (hzero : s.count = 0) :
    Done s := by
  refine h.done fun fd => ?_
  by_contra howed
  rw [Bool.not_eq_false] at howed
  obtain ⟨j, hj, -, hc⟩ := h.ahead fd howed
  have hnone : ∀ k < fdSetsize, id (s.owed k) = false :=
    tally_eq_zero_iff.mp (by unfold Sys.count at hzero; omega)
  have hfalse : s.owed fd = false := hnone fd (hcon.small fd (hcon.mem_allset hj hc))
  rw [hfalse] at howed
  cases howed

/-- The loop ends behind the last entry in use when nothing is owed. -/
theorem Scan.done_of_maxi (h : Scan s i) (hcon : Consistent s) (hi : s.maxi < i) : Done s := by
  refine h.done fun fd => ?_
  by_contra howed
  rw [Bool.not_eq_false] at howed
  obtain ⟨j, hj, hij, hc⟩ := h.ahead fd howed
  rw [hcon.above j hj (by omega)] at hc
  cases hc

/-- **The countdown does not stop the loop early.** -/
theorem round_countDown (h : Scan s i) (hcon : Consistent s) (hcount : s.nready = s.count + 1) :
    Round (s.countDown i) := by
  unfold Round Sys.countDown
  by_cases hzero : s.nready - 1 ≤ 0
  · rw [if_pos hzero]
    have hnonneg : 0 ≤ s.count := Int.natCast_nonneg _
    exact h.done_of_count hcon (by omega)
  · rw [if_neg hzero]
    refine ⟨⟨h.once, h.only, h.ahead, h.fresh⟩, ?_⟩
    show s.nready - 1 = s.count
    omega

/-- What is owed when a descriptor has been served. -/
theorem owed_serve (s : Sys) (fd : Fd) : (s.serve fd).owed = Function.update s.owed fd false := by
  funext k
  rcases eq_or_ne k fd with rfl | hne
  · simp [Sys.owed, Sys.serve]
  · simp [Sys.owed, Sys.serve, hne]

theorem count_serve (hfd : s.owed fd = true) (hsmall : fd < fdSetsize) :
    s.count = (s.serve fd).count + 1 := by
  have htally := tally_update (p := id) (f := s.owed) (x := false) hsmall
  simp only [Sys.count, owed_serve]
  simp only [hfd, id, Bool.toNat_true, Bool.toNat_false] at htally
  omega

/-- The entry `i` is passed over. -/
theorem Scan.skip (h : Scan s i) (hnot : ∀ fd, s.client i = some fd → s.rset fd = false) :
    Scan s (i + 1) := by
  refine ⟨h.once, h.only, fun fd hfd => ?_, fun j hj hij => h.fresh j hj (Nat.le_of_succ_le hij)⟩
  obtain ⟨j, hj, hij, hc⟩ := h.ahead fd hfd
  have hji : j ≠ i := by
    rintro rfl
    rw [Sys.owed, hnot fd hc] at hfd
    cases hfd
  exact ⟨j, hj, by omega, hc⟩

/-- The entry `i` is served. -/
theorem Scan.serve (h : Scan s i) (hcon : Consistent s) (hi : i < fdSetsize)
    (hc : s.client i = some sockfd) (hr : s.rset sockfd = true) :
    Scan (s.serve sockfd) (i + 1) ∧ s.count = (s.serve sockfd).count + 1 := by
  have hzero : s.served sockfd = 0 := h.fresh i hi (Nat.le_refl i) sockfd hc
  have howed : s.owed sockfd = true := by simp [Sys.owed, hr, hzero]
  refine ⟨⟨?_, ?_, ?_, ?_⟩, count_serve howed (hcon.small _ (hcon.mem_allset hi hc))⟩
  · intro fd
    rcases eq_or_ne fd sockfd with rfl | hne
    · simp [Sys.serve, hzero]
    · simpa [Sys.serve, hne] using h.once fd
  · intro fd hfd
    rcases eq_or_ne fd sockfd with rfl | hne
    · exact hr
    · exact h.only fd (by simpa [Sys.serve, hne] using hfd)
  · intro fd hfd
    rw [owed_serve] at hfd
    rcases eq_or_ne fd sockfd with rfl | hne
    · rw [Function.update_self] at hfd
      cases hfd
    · rw [Function.update_of_ne hne] at hfd
      obtain ⟨j, hj, hij, hcj⟩ := h.ahead fd hfd
      have hji : j ≠ i := by
        rintro rfl
        rw [hc, Option.some.injEq] at hcj
        exact hne hcj.symm
      exact ⟨j, hj, by omega, hcj⟩
  · intro j hj hij fd hcj
    have hne : fd ≠ sockfd := by
      rintro rfl
      have := hcon.distinct j hj i hi fd hcj hc
      omega
    simpa [Sys.serve, hne] using h.fresh j hj (by omega) fd hcj

/-- Releasing an entry that has been passed does not matter to the loop. -/
theorem Scan.drop (h : Scan s (i + 1)) : Scan (s.drop i sockfd) (i + 1) := by
  have hother : ∀ j, i + 1 ≤ j → (s.drop i sockfd).client j = s.client j := by
    intro j hij
    exact Function.update_of_ne (by omega) ..
  refine ⟨h.once, h.only, fun fd hfd => ?_, fun j hj hij fd hc => ?_⟩
  · obtain ⟨j, hj, hij, hc⟩ := h.ahead fd hfd
    exact ⟨j, hj, hij, (hother j hij).trans hc⟩
  · exact h.fresh j hj hij fd ((hother j hij).symm.trans hc)

end Round

/-- The invariant. -/
def Inv (s : Sys) : Prop := s.pc = .undefined ∨ Consistent s ∧ Round s

section Step

variable {s s' : Sys}

theorem inv_exit (h : Consistent s) : Inv s.exit := .inr ⟨{ h with }, trivial⟩

/-- A round begins. -/
theorem inv_selected (h : Consistent s) {rset : Fd → Bool}
    (hsub : ∀ fd, rset fd = true → s.allset fd = true) : Inv (s.selected rset) := by
  refine .inr ⟨{ h with }, ?_⟩
  have howed : (s.selected rset).owed = rset := by
    funext fd
    simp [Sys.owed, Sys.selected]
  have hcount : (s.selected rset).nready = (s.selected rset).count := by
    rw [Sys.count, howed]
    rfl
  unfold Round
  cases hl : rset s.listenfd with
  | true =>
    rw [show (s.selected rset).pc = .accept by simp [Sys.selected, hl]]
    exact ⟨hl, fun _ => rfl, hsub, hcount⟩
  | false =>
    rw [show (s.selected rset).pc = .scan 0 by simp [Sys.selected, hl]]
    refine ⟨⟨fun _ => Nat.zero_le 1, fun _ hne => absurd rfl hne, ?_, fun _ _ _ _ _ => rfl⟩, hcount⟩
    intro fd hfd
    rw [howed] at hfd
    rcases (h.listed fd).mp (hsub fd hfd) with rfl | ⟨j, hj, hc⟩
    · rw [hl] at hfd
      cases hfd
    · exact ⟨j, hj, Nat.zero_le j, hc⟩

/-- A connection is accepted. -/
theorem inv_accepted (h : Consistent s) (hr : Round s) (hpc : s.pc = .accept) {connfd : Fd}
    (hnew : s.isOpen connfd = false) : Inv ((s.serve s.listenfd).accepted connfd) := by
  simp only [Round, hpc] at hr
  obtain ⟨hlisten, hserved, hsub, hcount⟩ := hr
  unfold Sys.accepted
  split
  · exact inv_exit { h with }
  · next i hfirst =>
    obtain ⟨hi, hfree⟩ := first_eq_some hfirst
    rw [Option.isNone_iff_eq_none] at hfree
    split
    · exact .inl rfl
    · next hsmall =>
      have hcon : Consistent { s.serve s.listenfd with
          client := Function.update s.client i (some connfd)
          allset := Function.update s.allset connfd true
          maxfd := max s.maxfd connfd
          maxi := max s.maxi i
          isOpen := Function.update s.isOpen connfd true } :=
        { h.insert hi hfree hnew (Nat.lt_of_not_le hsmall) with }
      have hin : s.allset s.listenfd = true := (h.listed s.listenfd).mpr (.inl rfl)
      have howed : s.owed s.listenfd = true := by simp [Sys.owed, hlisten, hserved]
      refine .inr ⟨{ hcon with }, round_countDown ⟨?_, ?_, ?_, ?_⟩ hcon ?_⟩
      · intro fd
        rcases eq_or_ne fd s.listenfd with rfl | hne
        · simp [Sys.serve, hserved]
        · simp [Sys.serve, hserved, hne]
      · intro fd hfd
        rcases eq_or_ne fd s.listenfd with rfl | hne
        · exact hlisten
        · simp [Sys.serve, hserved, hne] at hfd
      · intro fd hfd
        -- the other descriptors that were reported are those of clients
        have hfd' : (s.serve s.listenfd).owed fd = true := hfd
        rw [owed_serve] at hfd'
        rcases eq_or_ne fd s.listenfd with rfl | hne
        · rw [Function.update_self] at hfd'
          cases hfd'
        · rw [Function.update_of_ne hne, Sys.owed, Bool.and_eq_true] at hfd'
          obtain ⟨j, hj, hc⟩ := ((h.listed fd).mp (hsub fd hfd'.1)).resolve_left hne
          have hji : j ≠ i := by
            rintro rfl
            rw [show s.client j = none from hfree] at hc
            cases hc
          exact ⟨j, hj, Nat.zero_le j, by simp only [Function.update_of_ne hji]; exact hc⟩
      · intro j hj _ fd hc
        have hne : fd ≠ s.listenfd := by
          rintro rfl
          exact hcon.notListen j hj hc
        simp [Sys.serve, hserved, hne]
      · show s.nready = (s.serve s.listenfd).count + 1
        rw [hcount]
        exact count_serve howed (h.small _ hin)

theorem inv_tick (h : Consistent s) (hr : Round s) (hs : s.tick = some s') : Inv s' := by
  unfold Sys.tick at hs
  split at hs
  · next i hpc =>
    simp only [Round, hpc] at hr
    obtain ⟨hscan, hcount⟩ := hr
    split at hs
    · next hle =>
      split at hs
      · next hfree =>
        cases hs
        have hskip := hscan.skip fun fd hc => by rw [hfree] at hc; cases hc
        exact .inr ⟨{ h with }, { hskip with }, hcount⟩
      · next sockfd hc =>
        split at hs
        · next hset =>
          cases hs
          have hlt := h.maxi_lt
          exact .inr ⟨{ h with }, { hscan with }, hcount, by omega, hc, hset⟩
        · next hset =>
          cases hs
          have hskip := hscan.skip fun fd hfd => by
            rw [hc, Option.some.injEq] at hfd
            rw [← hfd]
            exact Bool.eq_false_iff.mpr hset
          exact .inr ⟨{ h with }, { hskip with }, hcount⟩
    · next hgt =>
      cases hs
      exact .inr ⟨{ h with }, hscan.done_of_maxi h (by omega)⟩
  · cases hs

theorem inv_step {a : Act} (h : Inv s) (hs : step s a = some s') : Inv s' := by
  obtain ⟨hcon, hr⟩ := h.resolve_left (defined_of_step hs)
  cases next_of_step hs with
  | selected _ hin =>
    refine inv_selected hcon fun fd hfd => ?_
    rw [Bool.and_eq_true, decide_eq_true_eq] at hfd
    exact hin fd hfd.1 hfd.2
  | accepted hpc hnew => exact inv_accepted hcon hr hpc hnew
  | again => exact .inr ⟨hcon, hr⟩
  | read hpc =>
    simp only [Round, hpc] at hr
    obtain ⟨hscan, hcount, hi, hc, hset⟩ := hr
    obtain ⟨hscan', hcount'⟩ := hscan.serve hcon hi hc hset
    exact .inr ⟨{ hcon with }, { hscan' with }, hcount.trans hcount'⟩
  | @closed i sockfd _ hpc =>
    simp only [Round, hpc] at hr
    obtain ⟨hscan, hcount, hi, hc, hset⟩ := hr
    obtain ⟨hscan', hcount'⟩ := hscan.serve hcon hi hc hset
    have hdrop : Consistent ((s.serve sockfd).drop i sockfd) :=
      Consistent.drop (s := s.serve sockfd) { hcon with } hi hc
    have hscan'' : Scan ((s.serve sockfd).drop i sockfd) (i + 1) := hscan'.drop
    exact .inr ⟨{ hdrop with }, round_countDown hscan'' hdrop (hcount.trans hcount')⟩
  | written hpc =>
    simp only [Round, hpc] at hr
    exact .inr ⟨{ hcon with }, round_countDown hr.1 hcon hr.2⟩
  | tick hs => exact inv_tick hcon hr hs
  | exit => exact inv_exit hcon

theorem inv_init (listenfd : Fd) (inherited : Fd → Bool) : Inv (init listenfd inherited) := by
  rcases Nat.lt_or_ge listenfd fdSetsize with hlt | hge
  · have hin : ∀ {fd}, (init listenfd inherited).allset fd = true → fd = listenfd := by
      intro fd hfd
      by_contra hne
      simp [init, hne] at hfd
    refine .inr ⟨⟨?_, ?_, ?_, ?_, ?_, ?_, ?_, ?_⟩, ?_⟩
    · intro fd
      refine ⟨fun hfd => .inl (hin hfd), ?_⟩
      rintro (rfl | ⟨i, -, hc⟩)
      · simp [init]
      · cases hc
    · intro i _ j _ fd hc
      cases hc
    · intro i _ hc
      cases hc
    · intro fd hfd
      rw [hin hfd]
      simp [init]
    · intro i _ _
      rfl
    · show (-1 : ℤ) < (fdSetsize : ℤ)
      decide
    · intro fd hfd
      exact Nat.le_of_eq (hin hfd)
    · intro fd hfd
      rw [hin hfd]
      exact hlt
    · rw [Round, show (init listenfd inherited).pc = .select from if_pos hlt]
      intro fd
      rfl
  · exact .inl (if_neg (Nat.not_lt_of_le hge))

end Step

/-- Two clients connect; with the second one, the first is at its end of file. -/
def twoClientsRun : List Act :=
  [.select (· == 3), .accept 4, .select (fun fd => fd == 3 || fd == 4), .accept 5, .tick, .eof true]

end TcpIp.Select.ClientTable
