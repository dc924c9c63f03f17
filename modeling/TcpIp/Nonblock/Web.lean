import Mathlib.Data.Int.Notation
import Mathlib.Order.Lattice
import TcpIp.Lib.Run
import TcpIp.Lib.Table

/-!
# Several nonblocking connections at a time

`nonblock/web.c` reads a number of files, each over a connection of its own, at most
`maxnconn` at a time.  The connections are started with a nonblocking `connect`
(`start_connect.c`), which is complete when the descriptor becomes readable or
writable; then the request is written (`write_get_cmd.c`), and the reply is read to its
end.

The program keeps three counters, two descriptor sets and the greatest descriptor in
global variables, all of them changed by all three source files.  `Books` says how they
depend on the table of files; it holds after each of the steps below.

An action is a step of the program up to the next system call, or a connection that is
completed by the network.  A call that fails ends the process, and no step stands for
it; in particular a request is only written to an established connection, so that
nothing comes after the message about a failed `connect`.  Each file records how often
its connection was established, its request written, and the end of the reply read.

## Main definitions

* `startConnect`, `writeGetCmd` — the functions of the other two source files.
* `Sys`, `Act`, `step`, `init` — the system.
* `Books` — the counters and sets agree with the table.

## Main results

* `books_kept` — this is so in every reachable state, a file to connect is always found,
  and in the end every file has been read once.
-/

namespace TcpIp
namespace Web

open Run

/-- `MAXFILES`. -/
def maxFiles : ℕ := 20

abbrev Fd := ℕ

/-- `f_flags`. -/
inductive Flags where
  | zero
  | connecting
  | reading
  | done
  deriving DecidableEq, Repr

/-- The state of the socket of a file. -/
inductive Sock where
  | none
  /-- `connect` has returned `EINPROGRESS`. -/
  | pending
  | established
  | failed
  | closed
  deriving DecidableEq, Repr

/-- An entry of `file`, with its socket and its history. -/
structure File where
  fFd : Fd
  fFlags : Flags
  sock : Sock
  /-- How often the connection has been established. -/
  connects : ℕ
  /-- How often the request has been written. -/
  requests : ℕ
  /-- How often the end of the reply has been read. -/
  eofs : ℕ
  deriving DecidableEq, Repr

namespace File

/-- `f_flags == 0`. -/
def isNew (f : File) : Bool :=
  match f.fFlags with
  | .zero => true
  | _ => false

def isConnecting (f : File) : Bool :=
  match f.fFlags with
  | .connecting => true
  | _ => false

/-- The file has a connection, or will have one. -/
def isOpen (f : File) : Bool :=
  match f.fFlags with
  | .connecting => true
  | .reading => true
  | _ => false

/-- The file has not been read to its end. -/
def isLeft (f : File) : Bool :=
  match f.fFlags with
  | .done => false
  | _ => true

variable {f : File}

theorem isNew_iff : f.isNew = true ↔ f.fFlags = .zero := by
  unfold isNew
  cases f.fFlags <;> simp

theorem isLeft_eq_false_iff : f.isLeft = false ↔ f.fFlags = .done := by
  unfold isLeft
  cases f.fFlags <;> simp

theorem isOpen_of_isConnecting (h : f.isConnecting = true) : f.isOpen = true := by
  unfold isConnecting at h
  unfold isOpen
  cases hflags : f.fFlags <;> simp_all

end File

/-- Where the program is. -/
inductive Pc where
  /-- At the test of the outer loop. -/
  | top
  /-- At the test of the inner loop. -/
  | inner
  /-- In `start_connect`. -/
  | connect (i : ℕ)
  | select
  /-- In the loop over the table. -/
  | scan (i : ℕ)
  /-- `exit(0)`. -/
  | exit
  /-- `err_quit("nlefttoconn = %d but nothing found")`. -/
  | nothingFound
  deriving DecidableEq, Repr

structure Sys where
  nfiles : ℕ
  maxnconn : ℤ
  file : ℕ → File
  nconn : ℤ
  nlefttoconn : ℤ
  nlefttoread : ℤ
  maxfd : ℤ
  rset : Fd → Bool
  wset : Fd → Bool
  /-- What `Select` has returned. -/
  rs : Fd → Bool
  ws : Fd → Bool
  pc : Pc

inductive Act where
  /-- The next step of the program. -/
  | main
  /-- `Socket` returns `fd`; `connect` returns `0` or `EINPROGRESS`. -/
  | connect (fd : Fd) (inProgress : Bool)
  /-- A connection in progress is completed, or fails. -/
  | complete (i : ℕ) (ok : Bool)
  | select (rs ws : Fd → Bool)
  /-- `Writen` returns. -/
  | write
  /-- `Read` returns. -/
  | read (n : ℕ)

/-! ### The functions of the program -/

/-- `if (fd > maxfd) maxfd = fd`. -/
def raise (maxfd : ℤ) (fd : Fd) : ℤ := if maxfd < fd then fd else maxfd

/-- `write_get_cmd`. -/
def writeGetCmd (s : Sys) (i : ℕ) : Sys :=
  let fptr := s.file i
  { s with
    file := Function.update s.file i
      { fptr with fFlags := .reading, requests := fptr.requests + 1 }
    rset := Function.update s.rset fptr.fFd true
    maxfd := raise s.maxfd fptr.fFd }

/-- `start_connect`. -/
def startConnect (s : Sys) (i : ℕ) (fd : Fd) (inProgress : Bool) : Sys :=
  let fptr := { s.file i with fFd := fd }
  if inProgress then
    { s with
      file := Function.update s.file i { fptr with fFlags := .connecting, sock := .pending }
      rset := Function.update s.rset fd true
      wset := Function.update s.wset fd true
      maxfd := raise s.maxfd fd }
  else
    -- connect is already done
    writeGetCmd
      { s with
        file := Function.update s.file i
          { fptr with sock := .established, connects := fptr.connects + 1 } }
      i

/-- What the loop over the table does with a file. -/
inductive Task where
  | skip
  | write
  | read
  deriving DecidableEq, Repr

/-- The tests of the loop. -/
def Sys.task (s : Sys) (i : ℕ) : Task :=
  let fd := (s.file i).fFd
  match (s.file i).fFlags with
  | .connecting => if s.rs fd || s.ws fd then .write else .skip
  | .reading => if s.rs fd then .read else .skip
  | _ => .skip

/-- `main`, between the system calls. -/
def Sys.mainStep (s : Sys) : Option Sys :=
  match s.pc with
  | .top => some { s with pc := if 0 < s.nlefttoread then .inner else .exit }
  | .inner =>
    if s.nconn < s.maxnconn ∧ 0 < s.nlefttoconn then
      match Table.first File.isNew s.file s.nfiles with
      | none => some { s with pc := .nothingFound }
      | some i => some { s with pc := .connect i }
    else some { s with pc := .select }
  | .scan i =>
    if i < s.nfiles then
      if s.task i = .skip then some { s with pc := .scan (i + 1) } else none
    else some { s with pc := .top }
  | _ => none

/-- The end of a reply. -/
def Sys.finish (s : Sys) (i : ℕ) : Sys :=
  { s with
    file := Function.update s.file i
      { s.file i with fFlags := .done, sock := .closed, eofs := (s.file i).eofs + 1 }
    rset := Function.update s.rset (s.file i).fFd false
    nconn := s.nconn - 1
    nlefttoread := s.nlefttoread - 1
    pc := .scan (i + 1) }

/-- The transition function. -/
def step (s : Sys) : Act → Option Sys
  | .main => s.mainStep
  | .connect fd inProgress =>
    match s.pc with
    | .connect i =>
      -- the descriptor is not in use; it may have been in use before
      if ∀ j < s.nfiles, (s.file j).isOpen = true → (s.file j).fFd ≠ fd then
        some { startConnect s i fd inProgress with
          nconn := s.nconn + 1
          nlefttoconn := s.nlefttoconn - 1
          pc := .inner }
      else none
    | _ => none
  | .complete i ok =>
    if i < s.nfiles ∧ (s.file i).sock = .pending then
      some { s with
        file := Function.update s.file i
          (if ok then
            { s.file i with sock := .established, connects := (s.file i).connects + 1 }
          else { s.file i with sock := .failed }) }
    else none
  | .select rs ws =>
    -- descriptors up to `maxfd` are looked at, and one in progress is not reported
    if s.pc = .select ∧
        (∀ i < s.nfiles, (s.file i).sock = .pending →
          rs (s.file i).fFd = false ∧ ws (s.file i).fFd = false) ∧
        ∃ fd < (s.maxfd + 1).toNat, (rs fd && s.rset fd || ws fd && s.wset fd) = true then
      some { s with
        rs := fun fd => rs fd && s.rset fd && decide (fd ≤ s.maxfd)
        ws := fun fd => ws fd && s.wset fd && decide (fd ≤ s.maxfd)
        pc := .scan 0 }
    else none
  | .write =>
    match s.pc with
    | .scan i =>
      if i < s.nfiles ∧ s.task i = .write ∧ (s.file i).sock = .established then
        some { writeGetCmd { s with wset := Function.update s.wset (s.file i).fFd false } i with
          pc := .scan (i + 1) }
      else none
    | _ => none
  | .read n =>
    match s.pc with
    | .scan i =>
      if i < s.nfiles ∧ s.task i = .read then
        if n = 0 then some (s.finish i) else some { s with pc := .scan (i + 1) }
      else none
    | _ => none

/-- The state before the loop, for this number of file names. -/
def init (nargs : ℕ) (maxnconn : ℤ) : Sys where
  nfiles := min nargs maxFiles
  maxnconn := maxnconn
  file := fun _ => ⟨0, .zero, .none, 0, 0, 0⟩
  nconn := 0
  nlefttoconn := (min nargs maxFiles : ℕ)
  nlefttoread := (min nargs maxFiles : ℕ)
  maxfd := -1
  rset := fun _ => false
  wset := fun _ => false
  rs := fun _ => false
  ws := fun _ => false
  pc := .top

/-! ### The books -/

/-- What has happened to a file, by its flags. -/
def File.Served (f : File) : Prop :=
  match f.fFlags with
  | .zero => f.sock = .none ∧ f.connects = 0 ∧ f.requests = 0 ∧ f.eofs = 0
  | .connecting =>
    (f.sock = .established ∧ f.connects = 1 ∨
      (f.sock = .pending ∨ f.sock = .failed) ∧ f.connects = 0) ∧ f.requests = 0 ∧ f.eofs = 0
  | .reading => f.sock = .established ∧ f.connects = 1 ∧ f.requests = 1 ∧ f.eofs = 0
  | .done => f.sock = .closed ∧ f.connects = 1 ∧ f.requests = 1 ∧ f.eofs = 1

/-- The counters and sets agree with the table. -/
structure Books (s : Sys) : Prop where
  nlefttoconn_eq : s.nlefttoconn = Table.tally File.isNew s.file s.nfiles
  nconn_eq : s.nconn = Table.tally File.isOpen s.file s.nfiles
  nlefttoread_eq : s.nlefttoread = Table.tally File.isLeft s.file s.nfiles
  nconn_le : s.nconn ≤ max s.maxnconn 0
  rset_eq : Table.Listed File.isOpen File.fFd s.file s.nfiles s.rset
  wset_eq : Table.Listed File.isConnecting File.fFd s.file s.nfiles s.wset
  /-- No two files have the same descriptor at the same time. -/
  distinct : ∀ i < s.nfiles, ∀ j < s.nfiles, (s.file i).isOpen = true → (s.file j).isOpen = true →
    (s.file i).fFd = (s.file j).fFd → i = j
  fd_le : ∀ i < s.nfiles, (s.file i).isOpen = true → (s.file i).fFd ≤ s.maxfd
  served : ∀ i < s.nfiles, (s.file i).Served
  connect_new : ∀ i, s.pc = .connect i →
    i < s.nfiles ∧ (s.file i).isNew = true ∧ s.nconn < s.maxnconn
  exit_done : s.pc = .exit → s.nlefttoread ≤ 0
  found : s.pc ≠ .nothingFound

theorem books_init (nargs : ℕ) (maxnconn : ℤ) : Books (init nargs maxnconn) where
  nlefttoconn_eq := by
    have hall : Table.tally File.isNew (init nargs maxnconn).file (min nargs maxFiles) =
        min nargs maxFiles := Table.tally_eq_of_forall fun _ _ => rfl
    simp only [init] at hall ⊢
    rw [hall]
  nconn_eq := by
    have hnone : Table.tally File.isOpen (init nargs maxnconn).file (min nargs maxFiles) = 0 :=
      Table.tally_eq_zero_iff.mpr fun _ _ => rfl
    simp only [init] at hnone ⊢
    rw [hnone]
    rfl
  nlefttoread_eq := by
    have hall : Table.tally File.isLeft (init nargs maxnconn).file (min nargs maxFiles) =
        min nargs maxFiles := Table.tally_eq_of_forall fun _ _ => rfl
    simp only [init] at hall ⊢
    rw [hall]
  nconn_le := le_max_right _ _
  rset_eq := by
    intro fd
    simp [init, File.isOpen]
  wset_eq := by
    intro fd
    simp [init, File.isConnecting]
  distinct := by nofun
  fd_le := by nofun
  served := fun _ _ => ⟨rfl, rfl, rfl, rfl⟩
  connect_new := by nofun
  exit_done := by nofun
  found := by nofun

theorem le_raise (maxfd : ℤ) (fd : Fd) : maxfd ≤ raise maxfd fd ∧ (fd : ℤ) ≤ raise maxfd fd := by
  unfold raise
  split <;> omega

section

variable {s : Sys}

/-- A step that changes nothing but the place in the program. -/
theorem Books.goto (h : Books s) {pc : Pc}
    (hconnect : ∀ i, pc = .connect i →
      i < s.nfiles ∧ (s.file i).isNew = true ∧ s.nconn < s.maxnconn)
    (hexit : pc = .exit → s.nlefttoread ≤ 0) (hfound : pc ≠ .nothingFound) :
    Books { s with pc } :=
  { h with connect_new := hconnect, exit_done := hexit, found := hfound }

/-- One file is replaced; the counters and sets are changed with it. -/
theorem Books.replace (h : Books s) {i : ℕ} (hi : i < s.nfiles) (f : File)
    {nconn nlefttoconn nlefttoread maxfd : ℤ} {rset wset : Fd → Bool} {pc : Pc}
    (hnew : nlefttoconn = s.nlefttoconn + f.isNew.toNat - (s.file i).isNew.toNat)
    (hopen : nconn = s.nconn + f.isOpen.toNat - (s.file i).isOpen.toNat)
    (hleft : nlefttoread = s.nlefttoread + f.isLeft.toNat - (s.file i).isLeft.toNat)
    (hle : nconn ≤ max s.maxnconn 0)
    (hrset : Table.Listed File.isOpen File.fFd (Function.update s.file i f) s.nfiles rset)
    (hwset : Table.Listed File.isConnecting File.fFd (Function.update s.file i f) s.nfiles wset)
    (hfd : f.isOpen = true → f.fFd ≤ maxfd ∧
      ∀ j < s.nfiles, j ≠ i → (s.file j).isOpen = true → (s.file j).fFd ≠ f.fFd)
    (hmax : s.maxfd ≤ maxfd) (hserved : f.Served)
    (hconnect : ∀ j, pc = .connect j →
      j < s.nfiles ∧ (Function.update s.file i f j).isNew = true ∧ nconn < s.maxnconn)
    (hexit : pc = .exit → nlefttoread ≤ 0) (hfound : pc ≠ .nothingFound) :
    Books { s with
      file := Function.update s.file i f
      nconn, nlefttoconn, nlefttoread, maxfd, rset, wset, pc } := by
  refine ⟨Table.counter_update h.nlefttoconn_eq hi hnew, Table.counter_update h.nconn_eq hi hopen,
    Table.counter_update h.nlefttoread_eq hi hleft, hle, hrset, hwset,
    ?_, ?_, ?_, hconnect, hexit, hfound⟩
  · intro j hj k hk hopenj hopenk heq
    by_cases hji : j = i
    · by_cases hki : k = i
      · exact hji.trans hki.symm
      · simp only [hji, Function.update_self, Function.update_of_ne hki] at hopenj hopenk heq
        exact absurd heq.symm ((hfd hopenj).2 k hk hki hopenk)
    · by_cases hki : k = i
      · simp only [hki, Function.update_self, Function.update_of_ne hji] at hopenj hopenk heq
        exact absurd heq ((hfd hopenk).2 j hj hji hopenj)
      · simp only [Function.update_of_ne hji, Function.update_of_ne hki] at hopenj hopenk heq
        exact h.distinct j hj k hk hopenj hopenk heq
  · intro j hj hopenj
    rcases eq_or_ne j i with rfl | hji
    · simp only [Function.update_self] at hopenj ⊢
      exact (hfd hopenj).1
    · simp only [Function.update_of_ne hji] at hopenj ⊢
      exact (h.fd_le j hj hopenj).trans hmax
  · intro j hj
    rcases eq_or_ne j i with rfl | hji
    · simpa only [Function.update_self] using hserved
    · simpa only [Function.update_of_ne hji] using h.served j hj

/-- A connection is started. -/
theorem Books.connect (h : Books s) {i : ℕ} {fd : Fd} {inProgress : Bool}
    (hpc : s.pc = .connect i)
    (hfresh : ∀ j < s.nfiles, (s.file j).isOpen = true → (s.file j).fFd ≠ fd) :
    Books { startConnect s i fd inProgress with
      nconn := s.nconn + 1
      nlefttoconn := s.nlefttoconn - 1
      pc := .inner } := by
  obtain ⟨hi, hnew, hless⟩ := h.connect_new i hpc
  have hzero : (s.file i).fFlags = .zero := File.isNew_iff.mp hnew
  have hserved := h.served i hi
  simp only [File.Served, hzero] at hserved
  obtain ⟨-, hconnects, hrequests, heofs⟩ := hserved
  have hclosed : (s.file i).isOpen = false := by simp [File.isOpen, hzero]
  have hidle : (s.file i).isConnecting = false := by simp [File.isConnecting, hzero]
  have hleft : (s.file i).isLeft = true := by simp [File.isLeft, hzero]
  have hmax := le_raise s.maxfd fd
  have hle : s.nconn + 1 ≤ max s.maxnconn 0 := by
    have := le_max_left s.maxnconn 0
    omega
  cases inProgress with
  | true =>
    simp only [startConnect, if_true]
    refine h.replace hi _ ?_ ?_ ?_ hle (h.rset_eq.insert hi hclosed rfl)
      (h.wset_eq.insert hi hidle rfl) ?_ hmax.1 ?_ (by nofun) (by nofun) (by nofun)
    · rw [hnew]
      simp [File.isNew]
    · rw [hclosed]
      simp [File.isOpen]
    · rw [hleft]
      simp [File.isLeft]
    · exact fun _ => ⟨hmax.2, fun j hj _ => hfresh j hj⟩
    · simp [File.Served, hconnects, hrequests, heofs]
  | false =>
    simp only [startConnect, writeGetCmd, Function.update_self, Function.update_idem,
      Bool.false_eq_true, if_false]
    refine h.replace hi _ ?_ ?_ ?_ hle (h.rset_eq.insert hi hclosed rfl)
      (h.wset_eq.keep hi ?_ ?_) ?_ hmax.1 ?_ (by nofun) (by nofun) (by nofun)
    · rw [hnew]
      simp [File.isNew]
    · rw [hclosed]
      simp [File.isOpen]
    · rw [hleft]
      simp [File.isLeft]
    · rw [hidle]
      rfl
    · nofun
    · exact fun _ => ⟨hmax.2, fun j hj _ => hfresh j hj⟩
    · simp [File.Served, hconnects, hrequests, heofs]

/-- The request is written to an established connection. -/
theorem Books.write (h : Books s) {i k : ℕ} (hi : i < s.nfiles)
    (hconnecting : (s.file i).fFlags = .connecting) (hsock : (s.file i).sock = .established) :
    Books { writeGetCmd { s with wset := Function.update s.wset (s.file i).fFd false } i with
      pc := .scan k } := by
  have hserved := h.served i hi
  simp only [File.Served, hconnecting, hsock, true_and, reduceCtorEq, or_self, false_and,
    or_false] at hserved
  obtain ⟨hconnects, hrequests, heofs⟩ := hserved
  have hopen : (s.file i).isOpen = true := by simp [File.isOpen, hconnecting]
  have hmax := le_raise s.maxfd (s.file i).fFd
  -- the descriptor is in the set already
  have hrset : Function.update s.rset (s.file i).fFd true = s.rset := by
    have hmem : s.rset (s.file i).fFd = true := (h.rset_eq _).mpr ⟨i, hi, hopen, rfl⟩
    rw [← hmem, Function.update_eq_self]
  simp only [writeGetCmd, hrset]
  refine h.replace hi _ ?_ ?_ ?_ h.nconn_le (h.rset_eq.keep hi ?_ fun _ => rfl)
    (h.wset_eq.erase rfl ?_) ?_ hmax.1 ?_ (by nofun) (by nofun) (by nofun)
  · simp [File.isNew, hconnecting]
  · simp [File.isOpen, hconnecting]
  · simp [File.isLeft, hconnecting]
  · rw [hopen]
    rfl
  · intro j hj hconn heq
    exact h.distinct j hj i hi (File.isOpen_of_isConnecting hconn) hopen heq
  · intro _
    refine ⟨hmax.2, ?_⟩
    intro j hj hji hopenj heq
    exact hji (h.distinct j hj i hi hopenj hopen heq)
  · simp [File.Served, hsock, hconnects, hrequests, heofs]

/-- The end of a reply is read. -/
theorem Books.finish (h : Books s) {i : ℕ} (hi : i < s.nfiles)
    (hreading : (s.file i).fFlags = .reading) : Books (s.finish i) := by
  have hserved := h.served i hi
  simp only [File.Served, hreading] at hserved
  obtain ⟨-, hconnects, hrequests, heofs⟩ := hserved
  have hopen : (s.file i).isOpen = true := by simp [File.isOpen, hreading]
  refine h.replace hi _ ?_ ?_ ?_ ?_ (h.rset_eq.erase rfl ?_) (h.wset_eq.keep hi ?_ ?_) ?_
    (Int.le_refl _) ?_ (by nofun) (by nofun) (by nofun)
  · simp [File.isNew, hreading]
  · rw [hopen]
    simp [File.isOpen]
  · simp [File.isLeft, hreading]
  · have := h.nconn_le
    omega
  · exact fun j hj hopenj heq => h.distinct j hj i hi hopenj hopen heq
  · simp [File.isConnecting, hreading]
  · nofun
  · nofun
  · simp [File.Served, hconnects, hrequests, heofs]

/-- A connection in progress is completed. -/
theorem Books.complete (h : Books s) {i : ℕ} (hi : i < s.nfiles)
    (hpending : (s.file i).sock = .pending) (ok : Bool) :
    Books { s with
      file := Function.update s.file i
        (if ok then
          { s.file i with sock := .established, connects := (s.file i).connects + 1 }
        else { s.file i with sock := .failed }) } := by
  have hserved := h.served i hi
  have hconnecting : (s.file i).fFlags = .connecting := by
    cases hflags : (s.file i).fFlags <;> simp [File.Served, hflags, hpending] at hserved
    rfl
  simp only [File.Served, hconnecting, hpending, reduceCtorEq, false_and, true_or, true_and,
    false_or] at hserved
  obtain ⟨hconnects, hrequests, heofs⟩ := hserved
  obtain ⟨f, hf⟩ : ∃ f, f = if ok then
      { s.file i with sock := .established, connects := (s.file i).connects + 1 }
    else { s.file i with sock := .failed } := ⟨_, rfl⟩
  have hfd : f.fFd = (s.file i).fFd := by cases ok <;> rw [hf] <;> rfl
  have hflags : f.fFlags = (s.file i).fFlags := by cases ok <;> rw [hf] <;> rfl
  have hfserved : f.Served := by
    cases ok <;> simp [hf, File.Served, hconnecting, hconnects, hrequests, heofs]
  rw [← hf]
  have hnew : f.isNew = (s.file i).isNew := by simp only [File.isNew, hflags]
  have hopen : f.isOpen = (s.file i).isOpen := by simp only [File.isOpen, hflags]
  have hleft : f.isLeft = (s.file i).isLeft := by simp only [File.isLeft, hflags]
  have hconn : f.isConnecting = (s.file i).isConnecting := by
    simp only [File.isConnecting, hflags]
  refine h.replace hi f (by rw [hnew]; omega) (by rw [hopen]; omega) (by rw [hleft]; omega)
    h.nconn_le (h.rset_eq.keep hi hopen fun _ => hfd) (h.wset_eq.keep hi hconn fun _ => hfd)
    ?_ (Int.le_refl _) hfserved ?_ h.exit_done h.found
  · intro hfopen
    rw [hopen] at hfopen
    rw [hfd]
    refine ⟨h.fd_le i hi hfopen, ?_⟩
    intro j hj hji hopenj heq
    exact hji (h.distinct j hj i hi hopenj hfopen heq)
  · intro j hj
    obtain ⟨hlt, hjnew, hless⟩ := h.connect_new j hj
    refine ⟨hlt, ?_, hless⟩
    rcases eq_or_ne j i with rfl | hji
    · rw [Function.update_self, hnew]
      exact hjnew
    · rw [Function.update_of_ne hji]
      exact hjnew

theorem task_eq_write {i : ℕ} (h : s.task i = .write) : (s.file i).fFlags = .connecting := by
  simp only [Sys.task] at h
  split at h
  · next hflags => exact hflags
  · split at h <;> cases h
  · cases h

theorem task_eq_read {i : ℕ} (h : s.task i = .read) : (s.file i).fFlags = .reading := by
  simp only [Sys.task] at h
  split at h
  · split at h <;> cases h
  · next hflags => exact hflags
  · cases h

theorem books_mainStep {s' : Sys} (h : Books s) (hs : s.mainStep = some s') : Books s' := by
  unfold Sys.mainStep at hs
  split at hs
  · cases hs
    refine h.goto ?_ ?_ ?_
    · split <;> nofun
    · split
      · nofun
      · next hdone => exact fun _ => Int.not_lt.mp hdone
    · split <;> nofun
  · split at hs
    · next hguard =>
      split at hs
      · next hnone =>
        -- a file to connect has been counted
        rw [Table.first_eq_none_iff_tally] at hnone
        have hpos := hguard.2
        rw [h.nlefttoconn_eq, hnone] at hpos
        exact absurd hpos (by decide)
      · next i hfirst =>
        cases hs
        obtain ⟨hi, hnew⟩ := Table.first_eq_some hfirst
        refine h.goto ?_ (by nofun) (by nofun)
        intro j hj
        cases hj
        exact ⟨hi, hnew, hguard.1⟩
    · cases hs
      exact h.goto (by nofun) (by nofun) (by nofun)
  · split at hs
    · split at hs
      · cases hs
        exact h.goto (by nofun) (by nofun) (by nofun)
      · cases hs
    · cases hs
      exact h.goto (by nofun) (by nofun) (by nofun)
  · cases hs

end

/-- **Every step keeps the books.** -/
theorem books_step (s : Sys) (a : Act) (s' : Sys) (h : Books s) (hs : step s a = some s') :
    Books s' := by
  cases a with
  | main => exact books_mainStep h hs
  | connect fd inProgress =>
    simp only [step] at hs
    split at hs
    · next i hpc =>
      split at hs
      · next hfresh =>
        cases hs
        exact h.connect hpc hfresh
      · cases hs
    · cases hs
  | complete i ok =>
    simp only [step] at hs
    split at hs
    · next hguard =>
      cases hs
      exact h.complete hguard.1 hguard.2 ok
    · cases hs
  | select rs ws =>
    simp only [step] at hs
    split at hs
    · cases hs
      exact { h with connect_new := by nofun, exit_done := by nofun, found := by nofun }
    · cases hs
  | write =>
    simp only [step] at hs
    split at hs
    · split at hs
      · next hguard =>
        cases hs
        exact h.write hguard.1 (task_eq_write hguard.2.1) hguard.2.2
      · cases hs
    · cases hs
  | read n =>
    simp only [step] at hs
    split at hs
    · split at hs
      · next hguard =>
        split at hs
        · cases hs
          exact h.finish hguard.1 (task_eq_read hguard.2)
        · cases hs
          exact h.goto (by nofun) (by nofun) (by nofun)
      · cases hs
    · cases hs

theorem books_of_reachable {nargs : ℕ} {maxnconn : ℤ} {s : Sys}
    (h : Reachable step (init nargs maxnconn) s) : Books s :=
  exec_invariant books_step (books_init nargs maxnconn) h

/-- The number of files and of connections are fixed. -/
theorem limits_step (n : ℕ) (m : ℤ) (s : Sys) (a : Act) (s' : Sys)
    (h : s.nfiles = n ∧ s.maxnconn = m) (hs : step s a = some s') :
    s'.nfiles = n ∧ s'.maxnconn = m := by
  cases a with
  | main =>
    simp only [step, Sys.mainStep] at hs
    repeat' split at hs
    all_goals cases hs
    all_goals exact h
  | connect fd inProgress =>
    simp only [step, startConnect, writeGetCmd] at hs
    repeat' split at hs
    all_goals cases hs
    all_goals exact h
  | complete i ok =>
    simp only [step] at hs
    split at hs <;> cases hs
    exact h
  | select rs ws =>
    simp only [step] at hs
    split at hs <;> cases hs
    exact h
  | write =>
    simp only [step, writeGetCmd] at hs
    repeat' split at hs
    all_goals cases hs
    all_goals exact h
  | read n =>
    simp only [step, Sys.finish] at hs
    repeat' split at hs
    all_goals cases hs
    all_goals exact h

/-! ### The result -/

/-- **The books are kept.**  For any files and any number of connections, in every
reachable state: at the top of the outer loop the counters are the numbers of files in
the states they stand for, there are at most `maxnconn` connections, the two sets hold
the descriptors of the files they are meant for, none above `maxfd`; the program always
finds the file it looks for; and when it exits, every file has been connected, requested
and read to its end once. -/
theorem books_kept (nargs : ℕ) (maxnconn : ℤ) (s : Sys)
    (h : Reachable step (init nargs maxnconn) s) :
    (s.pc = .top →
      s.nlefttoconn = Table.tally File.isNew s.file s.nfiles ∧
      s.nconn = Table.tally File.isOpen s.file s.nfiles ∧
      s.nlefttoread = Table.tally File.isLeft s.file s.nfiles ∧
      s.nconn ≤ max maxnconn 0 ∧
      (∀ fd, s.rset fd = true ↔
        ∃ i < s.nfiles, (s.file i).isOpen = true ∧ (s.file i).fFd = fd) ∧
      (∀ fd, s.wset fd = true ↔
        ∃ i < s.nfiles, (s.file i).isConnecting = true ∧ (s.file i).fFd = fd) ∧
      ∀ fd, s.rset fd = true ∨ s.wset fd = true → (fd : ℤ) ≤ s.maxfd) ∧
    s.pc ≠ .nothingFound ∧
    (s.pc = .exit → s.nfiles = min nargs maxFiles ∧ ∀ i < s.nfiles,
      (s.file i).connects = 1 ∧ (s.file i).requests = 1 ∧ (s.file i).eofs = 1) := by
  have hbooks := books_of_reachable h
  obtain ⟨hn, hm⟩ : s.nfiles = min nargs maxFiles ∧ s.maxnconn = maxnconn :=
    exec_invariant (I := fun s => s.nfiles = min nargs maxFiles ∧ s.maxnconn = maxnconn)
      (limits_step _ _) ⟨rfl, rfl⟩ h
  refine ⟨?_, hbooks.found, ?_⟩
  · intro _
    refine ⟨hbooks.nlefttoconn_eq, hbooks.nconn_eq, hbooks.nlefttoread_eq, hm ▸ hbooks.nconn_le,
      hbooks.rset_eq, hbooks.wset_eq, ?_⟩
    rintro fd (hr | hw)
    · obtain ⟨i, hi, hopen, rfl⟩ := (hbooks.rset_eq fd).mp hr
      exact hbooks.fd_le i hi hopen
    · obtain ⟨i, hi, hconn, rfl⟩ := (hbooks.wset_eq fd).mp hw
      exact hbooks.fd_le i hi (File.isOpen_of_isConnecting hconn)
  · intro hexit
    refine ⟨hn, ?_⟩
    intro i hi
    -- no file is left, so this one is done
    have hzero : Table.tally File.isLeft s.file s.nfiles = 0 := by
      have := hbooks.exit_done hexit
      have := hbooks.nlefttoread_eq
      omega
    have hdone : (s.file i).fFlags = .done :=
      File.isLeft_eq_false_iff.mp (Table.tally_eq_zero_iff.mp hzero i hi)
    have hserved := hbooks.served i hi
    simp only [File.Served, hdone] at hserved
    exact hserved.2

/-- Two files over one connection at a time, the second with a `connect` that is complete
at once and the descriptor of the first. -/
def reuseRun : List Act :=
  [.main, .main, .connect 3 true, .main, .complete 0 true, .select (fun _ => true) (fun _ => true),
   .write, .main, .main, .main, .main, .select (fun _ => true) (fun _ => false), .read 0, .main,
   .main, .main, .main, .connect 3 false, .main, .select (fun _ => true) (fun _ => false), .main,
   .read 0, .main, .main]

theorem books_kept_reuseRun :
    ∃ s, exec step (init 2 1) reuseRun = some s ∧ s.pc = .exit ∧ s.pc ≠ .nothingFound ∧
      ∀ i < 2, (s.file i).connects = 1 ∧ (s.file i).requests = 1 ∧ (s.file i).eofs = 1 := by
  obtain ⟨s, hs, hpc⟩ := Option.map_eq_some_iff.mp
    (show (exec step (init 2 1) reuseRun).map (fun s => s.pc) = some .exit by decide)
  have hkept := books_kept 2 1 s ⟨reuseRun, hs⟩
  obtain ⟨hn, hall⟩ := hkept.2.2 hpc
  refine ⟨s, hs, hpc, hkept.2.1, ?_⟩
  intro i hi
  exact hall i (by rw [hn]; exact hi)

end Web
end TcpIp
