import Mathlib.Data.Int.Notation
import Mathlib.Data.List.Nodup
import TcpIp.Lib.Run
import TcpIp.Lib.Table

/-!
# Descriptor passing to preforked children

In `serv05.c` the parent accepts every connection and passes it to a child that is
free, over a stream pipe; the child serves it and sends one byte back
(`child05.c`).  The parent knows the children by `child_status` and counts the free
ones in `navail`; while there are none it does not look at the listening socket.

The parent works on what `select` has told it, which is out of date when it gets to
use it: meanwhile the children go on.  What makes this harmless is that a child whose
byte is on its way does nothing until it gets a new connection.

An action is one step of the parent or of a child.  The connections are numbered in
the order in which they are accepted.  A call that fails ends the process, and no step
stands for it.

## Main definitions

* `Sys`, `Act`, `step`, `init` — the system.
* `Handoff` — the parent's table agrees with the children and the pipes.
* `Delivered` — where the connections are.

## Main results

* `descriptors_passed` — the table is right whenever the parent is at the top of its
  loop, there is a child for every connection, and every connection gets to one child.
-/

namespace TcpIp
namespace Serv05

open Run

abbrev Conn := ℕ

/-- What the parent knows of a child. -/
structure Child where
  childStatus : ℕ
  childCount : ℕ
  deriving DecidableEq, Repr

/-- `child_status == 0`. -/
def Child.ready (child : Child) : Bool := child.childStatus == 0

/-- Where a child is. -/
inductive ChildPc where
  /-- In `Read_fd`. -/
  | readFd
  /-- In `web_child`. -/
  | webChild (connfd : Conn)
  /-- The connection has been closed; about to write to the parent. -/
  | write (connfd : Conn)
  deriving DecidableEq, Repr

/-- A child and its stream pipe. -/
structure Proc where
  pc : ChildPc
  /-- The descriptors on their way to the child. -/
  down : List Conn
  /-- The number of bytes on their way to the parent. -/
  up : ℕ
  /-- The descriptors the child has received. -/
  taken : List Conn
  deriving DecidableEq, Repr

/-- Where the parent is. -/
inductive ParentPc where
  /-- At the top of the loop. -/
  | select
  | accept
  /-- About to look for a free child. -/
  | assign (connfd : Conn)
  /-- In `Write_fd` to the child `i`. -/
  | writeFd (i : ℕ) (connfd : Conn)
  /-- In the second loop. -/
  | scan (i : ℕ)
  /-- `err_quit("no available children")`. -/
  | quit
  deriving DecidableEq, Repr

structure Sys where
  nchildren : ℕ
  cptr : ℕ → Child
  navail : ℤ
  nsel : ℤ
  /-- The bits of `rset` for the pipes. -/
  rset : ℕ → Bool
  pc : ParentPc
  procs : ℕ → Proc
  /-- The number of connections accepted. -/
  accepted : ℕ

inductive Act where
  /-- `Select` returns, with the listening socket and these pipes. -/
  | select (listen : Bool) (ready : ℕ → Bool)
  | accept
  /-- The next step of the parent. -/
  | parent
  /-- The next step of a child. -/
  | child (i : ℕ)

/-! ### The transition system -/

/-- The loop of `child_main`. -/
def Proc.childMain (p : Proc) : Option Proc :=
  match p.pc with
  | .readFd =>
    match p.down with
    | [] => none
    | connfd :: down =>
      some { p with pc := .webChild connfd, down, taken := p.taken ++ [connfd] }
  | .webChild connfd => some { p with pc := .write connfd }
  | .write _ => some { p with pc := .readFd, up := p.up + 1 }

namespace Sys

/-- The parent, after `Accept`. -/
def parentStep (s : Sys) : Option Sys :=
  match s.pc with
  | .assign connfd =>
    match Table.first Child.ready s.cptr s.nchildren with
    | none => some { s with pc := .quit }
    | some i =>
      some { s with
        cptr := Function.update s.cptr i ⟨1, (s.cptr i).childCount + 1⟩
        navail := s.navail - 1
        pc := .writeFd i connfd }
  | .writeFd i connfd =>
    some { s with
      procs := Function.update s.procs i
        { s.procs i with down := (s.procs i).down ++ [connfd] }
      nsel := s.nsel - 1
      pc := if s.nsel - 1 = 0 then .select else .scan 0 }
  | .scan i =>
    if i < s.nchildren then
      if s.rset i then
        -- `Read` blocks until there is a byte
        if 0 < (s.procs i).up then
          some { s with
            procs := Function.update s.procs i { s.procs i with up := (s.procs i).up - 1 }
            cptr := Function.update s.cptr i { s.cptr i with childStatus := 0 }
            navail := s.navail + 1
            nsel := s.nsel - 1
            pc := if s.nsel - 1 = 0 then .select else .scan (i + 1) }
        else none
      else some { s with pc := .scan (i + 1) }
    else some { s with pc := .select }
  | _ => none

end Sys

/-- The transition function. -/
def step (s : Sys) : Act → Option Sys
  | .select listen ready =>
    -- `listenfd` is not in the set if no child is available
    if s.pc = .select ∧ (listen = true → 0 < s.navail) ∧
        (∀ i < s.nchildren, ready i = true → 0 < (s.procs i).up) ∧
        0 < listen.toNat + Table.tally id ready s.nchildren then
      some { s with
        rset := ready
        nsel := listen.toNat + Table.tally id ready s.nchildren
        pc := if listen then .accept else .scan 0 }
    else none
  | .accept =>
    if s.pc = .accept then some { s with pc := .assign s.accepted, accepted := s.accepted + 1 }
    else none
  | .parent => s.parentStep
  | .child i =>
    if i < s.nchildren then
      (s.procs i).childMain.map fun p => { s with procs := Function.update s.procs i p }
    else none

/-- What a step does. -/
inductive Next (s : Sys) : Act → Sys → Prop where
  | selected {listen ready} (hpc : s.pc = .select) (hlisten : listen = true → 0 < s.navail)
      (hready : ∀ i < s.nchildren, ready i = true → 0 < (s.procs i).up) :
      Next s (.select listen ready) { s with
        rset := ready
        nsel := listen.toNat + Table.tally id ready s.nchildren
        pc := if listen then .accept else .scan 0 }
  | accepted (hpc : s.pc = .accept) :
      Next s .accept { s with pc := .assign s.accepted, accepted := s.accepted + 1 }
  | parent {s'} (hs : s.parentStep = some s') : Next s .parent s'
  | child {i p} (hi : i < s.nchildren) (hp : (s.procs i).childMain = some p) :
      Next s (.child i) { s with procs := Function.update s.procs i p }

/-- **There are no other steps.** -/
theorem next_of_step {s s' : Sys} {a : Act} (hs : step s a = some s') : Next s a s' := by
  cases a with
  | select listen ready =>
    simp only [step] at hs
    split at hs <;> cases hs
    next hguard => exact .selected hguard.1 hguard.2.1 hguard.2.2.1
  | accept =>
    simp only [step] at hs
    split at hs <;> cases hs
    next hpc => exact .accepted hpc
  | parent => exact .parent hs
  | child i =>
    simp only [step] at hs
    split at hs
    · next hi =>
      obtain ⟨p, hp, rfl⟩ := Option.map_eq_some_iff.mp hs
      exact .child hi hp
    · cases hs

/-- All children have been created. -/
def init (nchildren : ℕ) : Sys where
  nchildren := nchildren
  cptr := fun _ => ⟨0, 0⟩
  navail := nchildren
  nsel := 0
  rset := fun _ => false
  pc := .select
  procs := fun _ => ⟨.readFd, [], 0, []⟩
  accepted := 0

/-! ### What a child has to do -/

/-- The connection being served; it is being served until the parent is told. -/
def ChildPc.serving : ChildPc → Option Conn
  | .readFd => none
  | .webChild connfd => some connfd
  | .write connfd => some connfd

namespace Proc

/-- The number of descriptors on their way, connections being served and bytes on
their way back. -/
def load (p : Proc) : ℕ := p.down.length + p.pc.serving.toList.length + p.up

/-- There is nothing in the child or in the pipe. -/
def Idle (p : Proc) : Prop := p.down = [] ∧ p.pc.serving = none ∧ p.up = 0

/-- There is exactly one of the three. -/
def Busy (p : Proc) : Prop :=
  (∃ connfd, p.down = [connfd] ∧ p.pc.serving = none ∧ p.up = 0) ∨
  (p.down = [] ∧ (∃ connfd, p.pc.serving = some connfd) ∧ p.up = 0) ∨
  (p.down = [] ∧ p.pc.serving = none ∧ p.up = 1)

variable {p : Proc}

theorem load_eq_zero_iff : p.load = 0 ↔ p.Idle := by
  simp only [load, Idle, Nat.add_eq_zero_iff, List.length_eq_zero_iff, Option.toList_eq_nil_iff,
    and_assoc]

theorem busy_of_load_eq_one (h : p.load = 1) : p.Busy := by
  unfold load at h
  cases hserving : p.pc.serving with
  | none =>
    simp only [hserving, Option.toList_none, List.length_nil] at h
    rcases Nat.eq_zero_or_pos p.up with hup | hup
    · obtain ⟨connfd, hdown⟩ := List.length_eq_one_iff.mp (by omega : p.down.length = 1)
      exact .inl ⟨connfd, hdown, hserving, hup⟩
    · have hdown : p.down = [] := List.length_eq_zero_iff.mp (by omega)
      exact .inr (.inr ⟨hdown, hserving, by omega⟩)
  | some connfd =>
    simp only [hserving, Option.toList_some, List.length_singleton] at h
    have hdown : p.down = [] := List.length_eq_zero_iff.mp (by omega)
    exact .inr (.inl ⟨hdown, ⟨connfd, hserving⟩, by omega⟩)

/-- A step of the child passes the one thing it has to do on. -/
theorem load_childMain {p' : Proc} (hs : p.childMain = some p') : p'.load = p.load := by
  unfold Proc.childMain at hs
  split at hs
  · next hpc =>
    split at hs
    · cases hs
    · next connfd down hdown =>
      cases hs
      simp [load, hpc, hdown, ChildPc.serving]
  · next connfd hpc =>
    cases hs
    simp [load, hpc, ChildPc.serving]
  · next connfd hpc =>
    cases hs
    simp only [load, hpc, ChildPc.serving, Option.toList_none, Option.toList_some, List.length_nil,
      List.length_singleton]
    omega

/-- A child whose byte is on its way waits. -/
theorem childMain_eq_none (hload : p.load ≤ 1) (hup : 0 < p.up) : p.childMain = none := by
  unfold load at hload
  have hdown : p.down = [] := List.length_eq_zero_iff.mp (by omega)
  have hserving : p.pc.serving = none := by
    rw [← Option.toList_eq_nil_iff, ← List.length_eq_zero_iff]
    omega
  cases hpc : p.pc with
  | readFd => simp [childMain, hpc, hdown]
  | webChild connfd => simp [hpc, ChildPc.serving] at hserving
  | write connfd => simp [hpc, ChildPc.serving] at hserving

/-- The connections passed to the child. -/
def conns (p : Proc) : List Conn := p.taken ++ p.down

theorem conns_childMain {p' : Proc} (hs : p.childMain = some p') : p'.conns = p.conns := by
  unfold Proc.childMain at hs
  split at hs
  · split at hs
    · cases hs
    · next connfd down hdown =>
      cases hs
      simp [conns, hdown]
  · cases hs
    rfl
  · cases hs
    rfl

end Proc

/-! ### The table of the parent -/

/-- The child is marked as busy and has not been sent its connection yet. -/
def ParentPc.owes (j : ℕ) : ParentPc → ℕ
  | .writeFd i _ => if i = j then 1 else 0
  | _ => 0

/-- The parent has still to look at the bit `j` of `rset`. -/
def ParentPc.ahead (j : ℕ) : ParentPc → Prop
  | .accept => True
  | .assign _ => True
  | .writeFd _ _ => True
  | .scan i => i ≤ j
  | _ => False

/-- The parent has been told of a connection and has not assigned it. -/
def ParentPc.needsChild : ParentPc → Prop
  | .accept => True
  | .assign _ => True
  | _ => False

/-- The table of the parent agrees with the children and the pipes. -/
structure Handoff (s : Sys) : Prop where
  status_le : ∀ j < s.nchildren, (s.cptr j).childStatus ≤ 1
  status_eq : ∀ j < s.nchildren, (s.procs j).load + s.pc.owes j = (s.cptr j).childStatus
  navail_eq : s.navail = Table.tally Child.ready s.cptr s.nchildren
  navail_pos : s.pc.needsChild → 0 < s.navail
  /-- What `select` has told is still so. -/
  rset_up : ∀ j < s.nchildren, s.pc.ahead j → s.rset j = true → 0 < (s.procs j).up
  writeFd_lt : ∀ i connfd, s.pc = .writeFd i connfd → i < s.nchildren
  not_quit : s.pc ≠ .quit

theorem handoff_init (nchildren : ℕ) : Handoff (init nchildren) where
  status_le := fun _ _ => Nat.zero_le 1
  status_eq := fun _ _ => rfl
  navail_eq := by
    have hall : Table.tally Child.ready (init nchildren).cptr nchildren = nchildren :=
      Table.tally_eq_of_forall fun _ _ => rfl
    simp only [init] at hall ⊢
    rw [hall]
  navail_pos := by nofun
  rset_up := by nofun
  writeFd_lt := by nofun
  not_quit := by nofun

section

variable {s : Sys}

theorem Handoff.load_le (h : Handoff s) {j : ℕ} (hj : j < s.nchildren) : (s.procs j).load ≤ 1 := by
  have := h.status_le j hj
  have := h.status_eq j hj
  omega

/-- The status of one child is changed. -/
theorem Handoff.status_le_update (h : Handoff s) {c : Child} (hc : c.childStatus ≤ 1) (i : ℕ) :
    ∀ j < s.nchildren, (Function.update s.cptr i c j).childStatus ≤ 1 := by
  intro j hj
  rcases eq_or_ne j i with rfl | hne
  · rw [Function.update_self]
    exact hc
  · rw [Function.update_of_ne hne]
    exact h.status_le j hj

/-- A step of the parent that leaves the table and the pipes alone. -/
theorem Handoff.goto (h : Handoff s) {pc : ParentPc} {accepted : ℕ}
    (howes : ∀ j, pc.owes j = s.pc.owes j) (hneeds : pc.needsChild → s.pc.needsChild)
    (hahead : ∀ j, pc.ahead j → s.rset j = true → s.pc.ahead j)
    (hwrite : ∀ i connfd, pc ≠ .writeFd i connfd) (hquit : pc ≠ .quit) :
    Handoff { s with pc, accepted } :=
  { h with
    status_eq := fun j hj => by rw [howes j]; exact h.status_eq j hj
    navail_pos := fun hpc => h.navail_pos (hneeds hpc)
    rset_up := fun j hj hpc hbit => h.rset_up j hj (hahead j hpc hbit) hbit
    writeFd_lt := fun i connfd hpc => absurd hpc (hwrite i connfd)
    not_quit := hquit }

/-- The parent marks a free child as busy. -/
theorem Handoff.assign (h : Handoff s) {i : ℕ} {connfd : Conn} (hpc : s.pc = .assign connfd)
    (hi : i < s.nchildren) (hfree : (s.cptr i).ready = true) :
    Handoff { s with
      cptr := Function.update s.cptr i ⟨1, (s.cptr i).childCount + 1⟩
      navail := s.navail - 1
      pc := .writeFd i connfd } := by
  have hzero : (s.cptr i).childStatus = 0 := by simpa [Child.ready] using hfree
  refine ⟨h.status_le_update (Nat.le_refl 1) i, ?_, ?_, by nofun, ?_, ?_, by nofun⟩
  · intro j hj
    have hload := h.status_eq j hj
    rw [hpc] at hload
    rcases eq_or_ne j i with rfl | hne
    · simp only [ParentPc.owes, Function.update_self, if_pos]
      simp only [ParentPc.owes] at hload
      omega
    · simpa only [ParentPc.owes, Function.update_of_ne hne, if_neg hne.symm] using hload
  · refine Table.counter_update h.navail_eq hi ?_
    have hbusy : Child.ready ⟨1, (s.cptr i).childCount + 1⟩ = false := rfl
    simp only [hfree, hbusy, Bool.toNat_true, Bool.toNat_false]
    omega
  · intro j hj _ hbit
    exact h.rset_up j hj (by rw [hpc]; trivial) hbit
  · intro j connfd' heq
    cases heq
    exact hi

/-- The parent sends the connection. -/
theorem Handoff.writeFd (h : Handoff s) {i : ℕ} {connfd : Conn} {nsel : ℤ} {pc : ParentPc}
    (hpc : s.pc = .writeFd i connfd) (hpc' : pc = .select ∨ pc = .scan 0) :
    Handoff { s with
      procs := Function.update s.procs i { s.procs i with down := (s.procs i).down ++ [connfd] }
      nsel, pc } := by
  have howes : ∀ j, pc.owes j = 0 := by
    rcases hpc' with rfl | rfl <;> exact fun _ => rfl
  refine { h with
    status_eq := ?_, navail_pos := ?_, rset_up := ?_, writeFd_lt := ?_, not_quit := ?_ }
  · intro j hj
    have hload := h.status_eq j hj
    rw [hpc] at hload
    simp only [howes]
    rcases eq_or_ne j i with rfl | hne
    · simp only [ParentPc.owes, if_pos] at hload
      simp only [Function.update_self, ← hload, Proc.load, List.length_append,
        List.length_singleton]
      omega
    · simpa only [ParentPc.owes, Function.update_of_ne hne, if_neg hne.symm] using hload
  · rcases hpc' with rfl | rfl <;> nofun
  · intro j hj _ hbit
    have hup := h.rset_up j hj (by rw [hpc]; trivial) hbit
    rcases eq_or_ne j i with rfl | hne
    · simpa using hup
    · simpa [Function.update_of_ne hne] using hup
  · rcases hpc' with rfl | rfl <;> nofun
  · rcases hpc' with rfl | rfl <;> nofun

/-- The parent reads the byte of a child. -/
theorem Handoff.read (h : Handoff s) {i : ℕ} {nsel : ℤ} {pc : ParentPc} (hpc : s.pc = .scan i)
    (hi : i < s.nchildren) (hup : 0 < (s.procs i).up)
    (hpc' : pc = .select ∨ pc = .scan (i + 1)) :
    Handoff { s with
      procs := Function.update s.procs i { s.procs i with up := (s.procs i).up - 1 }
      cptr := Function.update s.cptr i { s.cptr i with childStatus := 0 }
      navail := s.navail + 1
      nsel, pc } := by
  have howes : ∀ j, pc.owes j = 0 := by
    rcases hpc' with rfl | rfl <;> exact fun _ => rfl
  have hstatus := h.status_eq i hi
  rw [hpc] at hstatus
  simp only [ParentPc.owes, Nat.add_zero] at hstatus
  have hload : (s.procs i).load = 1 := by
    have hle := h.load_le hi
    unfold Proc.load at hle ⊢
    omega
  refine ⟨h.status_le_update (Nat.zero_le 1) i, ?_, ?_, ?_, ?_, ?_, ?_⟩
  · intro j hj
    simp only [howes]
    rcases eq_or_ne j i with rfl | hne
    · simp only [Function.update_self, Proc.load] at hload ⊢
      omega
    · have hother := h.status_eq j hj
      rw [hpc] at hother
      simpa only [ParentPc.owes, Function.update_of_ne hne] using hother
  · refine Table.counter_update h.navail_eq hi ?_
    have hbusy : (s.cptr i).ready = false := by simp [Child.ready, ← hstatus, hload]
    have hfree : Child.ready { s.cptr i with childStatus := 0 } = true := rfl
    simp only [hfree, hbusy, Bool.toNat_true, Bool.toNat_false]
    omega
  · rcases hpc' with rfl | rfl <;> nofun
  · intro j hj hahead hbit
    have hlt : i < j := by
      rcases hpc' with rfl | rfl
      · exact hahead.elim
      · exact hahead
    have hne : j ≠ i := by omega
    simp only [Function.update_of_ne hne]
    exact h.rset_up j hj (by rw [hpc]; exact Nat.le_of_lt hlt) hbit
  · rcases hpc' with rfl | rfl <;> nofun
  · rcases hpc' with rfl | rfl <;> nofun

theorem handoff_parentStep {s' : Sys} (h : Handoff s) (hs : s.parentStep = some s') :
    Handoff s' := by
  unfold Sys.parentStep at hs
  split at hs
  · next connfd hpc =>
    split at hs
    · next hnone =>
      -- a free child has been counted
      have hpos := h.navail_pos (by rw [hpc]; trivial)
      rw [Table.first_eq_none_iff_tally] at hnone
      rw [h.navail_eq, hnone] at hpos
      exact absurd hpos (by decide)
    · next i hsome =>
      cases hs
      obtain ⟨hi, hfree⟩ := Table.first_eq_some hsome
      exact h.assign hpc hi hfree
  · next i connfd hpc =>
    cases hs
    refine h.writeFd hpc ?_
    split
    · exact .inl rfl
    · exact .inr rfl
  · next i hpc =>
    split at hs
    · next hi =>
      split at hs
      · split at hs
        · next hup =>
          cases hs
          refine h.read hpc hi hup ?_
          split
          · exact .inl rfl
          · exact .inr rfl
        · cases hs
      · next hbit =>
        cases hs
        refine h.goto ?_ (by nofun) ?_ (by nofun) (by nofun)
        · intro j
          rw [hpc]
          rfl
        · intro j hahead _
          rw [hpc]
          exact Nat.le_of_succ_le hahead
    · cases hs
      refine h.goto ?_ (by nofun) (by nofun) (by nofun) (by nofun)
      intro j
      rw [hpc]
      rfl
  · cases hs

/-- A step of a child. -/
theorem Handoff.child (h : Handoff s) {i : ℕ} {p : Proc} (hi : i < s.nchildren)
    (hs : (s.procs i).childMain = some p) :
    Handoff { s with procs := Function.update s.procs i p } := by
  refine { h with status_eq := ?_, rset_up := ?_ }
  · intro j hj
    have hload := h.status_eq j hj
    rcases eq_or_ne j i with rfl | hne
    · simpa only [Function.update_self, Proc.load_childMain hs] using hload
    · simpa only [Function.update_of_ne hne] using hload
  · intro j hj hahead hbit
    have hup := h.rset_up j hj hahead hbit
    rcases eq_or_ne j i with rfl | hne
    · -- this child could not have made a step
      rw [Proc.childMain_eq_none (h.load_le hi) hup] at hs
      cases hs
    · simpa only [Function.update_of_ne hne] using hup

end

/-- **Every step keeps the table right.** -/
theorem handoff_step (s : Sys) (a : Act) (s' : Sys) (h : Handoff s) (hs : step s a = some s') :
    Handoff s' := by
  cases next_of_step hs with
  | @selected listen ready hpc hlisten hready =>
    refine { h with
      status_eq := ?_, navail_pos := ?_, rset_up := ?_, writeFd_lt := ?_, not_quit := ?_ }
    · intro j hj
      have hload := h.status_eq j hj
      rw [hpc] at hload
      cases listen <;> exact hload
    · intro hneeds
      cases listen with
      | false => exact hneeds.elim
      | true => exact hlisten rfl
    · intro j hj _ hbit
      exact hready j hj hbit
    · cases listen <;> nofun
    · cases listen <;> nofun
  | accepted hpc =>
    refine h.goto ?_ ?_ ?_ (by nofun) (by nofun)
    · intro j
      rw [hpc]
      rfl
    · intro _
      rw [hpc]
      trivial
    · intro j _ _
      rw [hpc]
      trivial
  | parent hs => exact handoff_parentStep h hs
  | child hi hp => exact h.child hi hp

/-! ### Where the connections are -/

/-- The connection the parent has accepted and not sent. -/
def ParentPc.inHand : ParentPc → Option Conn
  | .assign connfd => some connfd
  | .writeFd _ connfd => some connfd
  | _ => none

/-- Every connection up to the number `accepted` is in the hands of the parent or has
been passed to one of `n` children, once. -/
structure Delivered (n accepted : ℕ) (inHand : Option Conn) (conns : ℕ → List Conn) : Prop where
  lt : ∀ j, ∀ connfd ∈ conns j, connfd < accepted
  inHand_lt : ∀ connfd ∈ inHand, connfd < accepted
  inHand_new : ∀ connfd ∈ inHand, ∀ j, connfd ∉ conns j
  unique : ∀ j k connfd, connfd ∈ conns j → connfd ∈ conns k → j = k
  nodup : ∀ j, (conns j).Nodup
  complete : ∀ connfd < accepted, connfd ∈ inHand ∨ ∃ j < n, connfd ∈ conns j

section

variable {n accepted : ℕ} {conns : ℕ → List Conn} {connfd : Conn}

/-- A new connection is accepted. -/
theorem Delivered.accept (h : Delivered n accepted none conns) :
    Delivered n (accepted + 1) (some accepted) conns where
  lt := fun j connfd hmem => Nat.lt_succ_of_lt (h.lt j connfd hmem)
  inHand_lt := by
    intro connfd hmem
    cases Option.mem_some.mp hmem
    exact Nat.lt_succ_self accepted
  inHand_new := by
    intro connfd hmem j hj
    cases Option.mem_some.mp hmem
    exact Nat.lt_irrefl accepted (h.lt j accepted hj)
  unique := h.unique
  nodup := h.nodup
  complete := by
    intro connfd hlt
    rcases Nat.lt_succ_iff_lt_or_eq.mp hlt with hold | rfl
    · exact .inr ((h.complete connfd hold).resolve_left (by nofun))
    · exact .inl rfl

/-- The connection in hand is passed to a child. -/
theorem Delivered.pass (h : Delivered n accepted (some connfd) conns) {i : ℕ} (hi : i < n) :
    Delivered n accepted none (Function.update conns i (conns i ++ [connfd])) := by
  have hmem_iff : ∀ j c, c ∈ Function.update conns i (conns i ++ [connfd]) j ↔
      c ∈ conns j ∨ (j = i ∧ c = connfd) := by
    intro j c
    rcases eq_or_ne j i with rfl | hne
    · simp
    · simp [hne]
  have hnew := h.inHand_new connfd rfl
  refine ⟨?_, by nofun, by nofun, ?_, ?_, ?_⟩
  · intro j c hmem
    rcases (hmem_iff j c).mp hmem with hold | ⟨-, rfl⟩
    · exact h.lt j c hold
    · exact h.inHand_lt c rfl
  · intro j k c hj hk
    rcases (hmem_iff j c).mp hj with hold | ⟨hji, hc⟩
    · rcases (hmem_iff k c).mp hk with hold' | ⟨-, hc⟩
      · exact h.unique j k c hold hold'
      · exact absurd (hc ▸ hold) (hnew j)
    · rcases (hmem_iff k c).mp hk with hold' | ⟨hki, -⟩
      · exact absurd (hc ▸ hold') (hnew k)
      · exact hji.trans hki.symm
  · intro j
    rcases eq_or_ne j i with rfl | hne
    · rw [Function.update_self, List.nodup_append]
      refine ⟨h.nodup j, List.nodup_singleton connfd, ?_⟩
      intro c hc c' hc' heq
      rw [List.mem_singleton] at hc'
      exact hnew j (hc' ▸ heq ▸ hc)
    · rw [Function.update_of_ne hne]
      exact h.nodup j
  · intro c hlt
    right
    rcases h.complete c hlt with hc | ⟨j, hj, hc⟩
    · exact ⟨i, hi, (hmem_iff i c).mpr (.inr ⟨rfl, (Option.mem_some.mp hc).symm⟩)⟩
    · exact ⟨j, hj, (hmem_iff j c).mpr (.inl hc)⟩

end

namespace Sys

def conns (s : Sys) (j : ℕ) : List Conn := (s.procs j).conns

/-- All connections are accounted for. -/
def Accounted (s : Sys) : Prop := Delivered s.nchildren s.accepted s.pc.inHand s.conns

/-- One child or its pipe has changed. -/
theorem conns_eq_update (s : Sys) {s' : Sys} {i : ℕ} {p : Proc}
    (hprocs : s'.procs = Function.update s.procs i p) :
    s'.conns = Function.update s.conns i p.conns := by
  funext j
  unfold conns
  rw [hprocs]
  rcases eq_or_ne j i with rfl | hne
  · rw [Function.update_self, Function.update_self]
  · rw [Function.update_of_ne hne, Function.update_of_ne hne]

theorem conns_eq_of_update (s : Sys) {s' : Sys} {i : ℕ} {p : Proc}
    (hprocs : s'.procs = Function.update s.procs i p) (hconns : p.conns = s.conns i) :
    s'.conns = s.conns := by
  rw [conns_eq_update s hprocs, hconns, Function.update_eq_self]

/-- A step that passes no connection on. -/
theorem Accounted.congr {s s' : Sys} (h : s.Accounted) (hn : s'.nchildren = s.nchildren)
    (haccepted : s'.accepted = s.accepted) (hinHand : s'.pc.inHand = s.pc.inHand)
    (hconns : s'.conns = s.conns) : s'.Accounted := by
  rw [Accounted, hn, haccepted, hinHand, hconns]
  exact h

end Sys

theorem accounted_parentStep {s s' : Sys} (hand : Handoff s) (h : s.Accounted)
    (hs : s.parentStep = some s') : s'.Accounted := by
  have hquit := (handoff_parentStep hand hs).not_quit
  unfold Sys.parentStep at hs
  split at hs
  · next connfd hpc =>
    split at hs
    · cases hs
      exact absurd rfl hquit
    · cases hs
      exact h.congr rfl rfl (by rw [hpc]; rfl) rfl
  · next i connfd hpc =>
    cases hs
    rw [Sys.Accounted, hpc] at h
    have hpass := h.pass (hand.writeFd_lt i connfd hpc)
    have hsent : Proc.conns { s.procs i with down := (s.procs i).down ++ [connfd] } =
        s.conns i ++ [connfd] := by
      simp [Proc.conns, Sys.conns]
    rw [Sys.Accounted, s.conns_eq_update rfl, hsent]
    simp only
    split <;> exact hpass
  · next i hpc =>
    split at hs
    · split at hs
      · split at hs
        · cases hs
          refine h.congr rfl rfl ?_ (s.conns_eq_of_update rfl rfl)
          rw [hpc]
          simp only
          split <;> rfl
        · cases hs
      · cases hs
        exact h.congr rfl rfl (by rw [hpc]; rfl) rfl
    · cases hs
      exact h.congr rfl rfl (by rw [hpc]; rfl) rfl
  · cases hs

/-- **Every step accounts for all connections.** -/
theorem accounted_step (s : Sys) (a : Act) (s' : Sys) (hand : Handoff s) (h : s.Accounted)
    (hs : step s a = some s') : s'.Accounted := by
  cases next_of_step hs with
  | @selected listen _ hpc =>
    rw [Sys.Accounted, hpc] at h
    cases listen <;> exact h
  | accepted hpc =>
    rw [Sys.Accounted, hpc] at h
    exact h.accept
  | parent hs => exact accounted_parentStep hand h hs
  | child _ hp =>
    exact h.congr rfl rfl rfl (s.conns_eq_of_update rfl (Proc.conns_childMain hp))

theorem accounted_init (nchildren : ℕ) : (init nchildren).Accounted where
  lt := by nofun
  inHand_lt := by nofun
  inHand_new := by nofun
  unique := by nofun
  nodup := fun _ => List.nodup_nil
  complete := by nofun

theorem invariant_of_reachable {nchildren : ℕ} {s : Sys}
    (h : Reachable step (init nchildren) s) : Handoff s ∧ s.Accounted :=
  exec_invariant (I := fun s => Handoff s ∧ s.Accounted)
    (fun s a s' hinv hs => ⟨handoff_step s a s' hinv.1 hs, accounted_step s a s' hinv.1 hinv.2 hs⟩)
    ⟨handoff_init nchildren, accounted_init nchildren⟩ h

theorem nchildren_step (nchildren : ℕ) (s : Sys) (a : Act) (s' : Sys)
    (h : s.nchildren = nchildren) (hs : step s a = some s') : s'.nchildren = nchildren := by
  cases next_of_step hs with
  | selected => exact h
  | accepted => exact h
  | parent hs =>
    unfold Sys.parentStep at hs
    repeat' split at hs
    all_goals cases hs
    all_goals exact h
  | child => exact h

/-! ### The result -/

/-- **Passing descriptors.**  For any number of children, in every reachable state:
at the top of the parent's loop `navail` is the number of children with status `0`,
these have nothing to do, and one with status `1` has exactly one descriptor, connection
or byte to deal with; the parent always finds a child; every connection the parent does
not hold has been sent to exactly one child, once, and if the child has not received it
the child is waiting for it; and no child has two connections. -/
theorem descriptors_passed (nchildren : ℕ) (s : Sys) (h : Reachable step (init nchildren) s) :
    (s.pc = .select →
      s.navail = Table.tally Child.ready s.cptr nchildren ∧
      ∀ j < nchildren,
        (s.cptr j).childStatus = 0 ∧ (s.procs j).Idle ∨
        (s.cptr j).childStatus = 1 ∧ (s.procs j).Busy) ∧
    s.pc ≠ .quit ∧
    (∀ connfd < s.accepted, connfd ∈ s.pc.inHand ∨
      ∃ j < nchildren, ((s.procs j).taken ++ (s.procs j).down).count connfd = 1 ∧
        ∀ k, k ≠ j → connfd ∉ (s.procs k).taken ++ (s.procs k).down) ∧
    (∀ j < nchildren, ∀ connfd ∈ (s.procs j).down, (s.procs j).pc = .readFd) ∧
    (∀ j < nchildren, (s.procs j).down.length + (s.procs j).pc.serving.toList.length ≤ 1) := by
  have hn : s.nchildren = nchildren := exec_invariant (nchildren_step nchildren) rfl h
  obtain ⟨hand, hacc⟩ := invariant_of_reachable h
  subst hn
  refine ⟨?_, hand.not_quit, ?_, ?_, ?_⟩
  · intro hpc
    refine ⟨hand.navail_eq, ?_⟩
    intro j hj
    have hload := hand.status_eq j hj
    rw [hpc] at hload
    simp only [ParentPc.owes, Nat.add_zero] at hload
    rcases Nat.le_one_iff_eq_zero_or_eq_one.mp (hand.status_le j hj) with hzero | hone
    · exact .inl ⟨hzero, Proc.load_eq_zero_iff.mp (hload.trans hzero)⟩
    · exact .inr ⟨hone, Proc.busy_of_load_eq_one (hload.trans hone)⟩
  · intro connfd hlt
    rcases hacc.complete connfd hlt with hin | ⟨j, hj, hmem⟩
    · exact .inl hin
    · refine .inr ⟨j, hj, List.count_eq_one_of_mem (hacc.nodup j) hmem, ?_⟩
      intro k hkj hk
      exact hkj (hacc.unique k j connfd hk hmem)
  · intro j hj connfd hmem
    have hload := hand.load_le hj
    have hpos := List.length_pos_of_mem hmem
    unfold Proc.load at hload
    cases hpc : (s.procs j).pc with
    | readFd => rfl
    | webChild c => simp [hpc, ChildPc.serving] at hload; omega
    | write c => simp [hpc, ChildPc.serving] at hload; omega
  · intro j hj
    have hload := hand.load_le hj
    unfold Proc.load at hload
    omega

/-- Two connections are accepted, served by different children, and the first child
becomes free again. -/
def passRun : List Act :=
  [.select true fun _ => false, .accept, .parent, .parent, .child 0, .child 0,
   .select true fun _ => false, .accept, .parent, .parent, .child 0, .child 1,
   .select false fun i => i == 0, .parent]

theorem descriptors_passed_passRun :
    ∃ s, exec step (init 2) passRun = some s ∧ s.pc = .select ∧ s.navail = 1 ∧
      s.navail = Table.tally Child.ready s.cptr 2 ∧ s.pc ≠ .quit := by
  obtain ⟨s, hs, hfacts⟩ := Option.map_eq_some_iff.mp
    (show (exec step (init 2) passRun).map (fun s => (s.pc, s.navail)) = some (.select, 1) by
      decide)
  simp only [Prod.mk.injEq] at hfacts
  have hpassed := descriptors_passed 2 s ⟨passRun, hs⟩
  exact ⟨s, hs, hfacts.1, hfacts.2, (hpassed.1 hfacts.1).1, hpassed.2.1⟩

end Serv05
end TcpIp
