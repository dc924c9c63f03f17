import TcpIp.Nonblock.StrCli

/-!
# Half close

At the end of standard input the client tells the server with `shutdown` that nothing
more will come.  It must not do so before what is left in `to` has been written.  There
are two calls: one where the end of file is read and `to` is empty, and one where the
last bytes are written and the end of file has been read before.

The number of calls is an expression of the state (`HalfClose.shutdowns_eq`): one if the
end of file has been read and `to` is empty, and none otherwise.

## Main definitions

* `EofRead` — a run reads the end of standard input.
* `HalfClose` — the invariant.

## Main results

* `half_close` — one `shutdown`, behind everything else.
-/

namespace TcpIp
namespace StrCli

open Run Buffer

/-- The end of standard input is read. -/
def ReadsEof (s : Sys) (a : Act) : Prop := s.pc = .stdin ∧ a = .read (.ok [])

/-- Some step of the run reads the end of standard input. -/
def EofRead (s : Sys) (run : List Act) : Prop := ¬Along step (fun s a => ¬ReadsEof s a) s run

/-- The number of calls of `shutdown`, and when standard input is read. -/
structure HalfClose (s : Sys) : Prop where
  shutdowns_eq : s.shutdowns = if s.stdineof = true ∧ s.toBuf.optr = s.toBuf.iptr then 1 else 0
  stdin_open : s.pc = .stdin → s.rStdin = true → s.stdineof = false

theorem halfClose_init (tobuf frbuf : Vector UInt8 maxLine) : HalfClose (init tobuf frbuf) where
  shutdowns_eq := rfl
  stdin_open := by nofun

section

variable {s s' : Sys}

/-! ### What the tests say -/

theorem rStdin_of_read {res : Except Errno (List UInt8)} (hpc : s.pc = .stdin)
    (hs : step s (.read res) = some s') : s.rStdin = true := by
  simp only [step, hpc] at hs
  obtain ⟨hguard, -⟩ := Option.ite_none_right_eq_some.mp hs
  exact (Bool.and_eq_true_iff.mp hguard).1

theorem pending_of_write {res : Except Errno ℕ} (hpc : s.pc = .sockW)
    (hs : step s (.write res) = some s') : s.toBuf.optr ≠ s.toBuf.iptr := by
  simp only [step, hpc] at hs
  obtain ⟨hguard, -⟩ := Option.ite_none_right_eq_some.mp hs
  rw [Bool.and_eq_true, Bool.and_eq_true, decide_eq_true_eq] at hguard
  have hlt := hguard.1.2
  omega

/-! ### The steps -/

/-- A step that leaves the direction of the socket alone. -/
theorem HalfClose.goto (h : HalfClose s) (hbuf : s'.toBuf = s.toBuf)
    (heof : s'.stdineof = s.stdineof) (hshutdowns : s'.shutdowns = s.shutdowns)
    (hpc : s'.pc ≠ .stdin) : HalfClose s' where
  shutdowns_eq := by
    rw [hbuf, heof, hshutdowns]
    exact h.shutdowns_eq
  stdin_open := fun hstdin => absurd hstdin hpc

theorem HalfClose.selected (h : HalfClose s) (rStdin rSock wStdout wSock : Bool) :
    HalfClose (s.selected rStdin rSock wStdout wSock) where
  shutdowns_eq := h.shutdowns_eq
  stdin_open := by
    intro _ hbit
    simp only [Sys.selected, Bool.and_eq_true, decide_eq_true_eq] at hbit
    exact hbit.1.1

theorem HalfClose.readStdin (h : HalfClose s) (hopen : s.stdineof = false)
    (res : Except Errno (List UInt8)) : HalfClose (s.readStdin res) := by
  have hnone : s.shutdowns = 0 := by
    rw [h.shutdowns_eq, hopen, if_neg]
    exact fun hclosed => Bool.false_ne_true hclosed.1
  unfold Sys.readStdin
  split
  · exact h.goto rfl rfl rfl (by nofun)
  · exact h.goto rfl rfl rfl (by nofun)
  · refine ⟨?_, by nofun⟩
    simp only [hnone, true_and]
  · refine ⟨?_, by nofun⟩
    simp only [hnone, hopen, Bool.false_eq_true, false_and, if_false]

theorem HalfClose.writeSock (h : HalfClose s) (hpending : s.toBuf.optr ≠ s.toBuf.iptr)
    (res : Except Errno ℕ) : HalfClose (s.writeSock res) := by
  have hnone : s.shutdowns = 0 := by
    rw [h.shutdowns_eq, if_neg]
    exact fun hclosed => hpending hclosed.2
  unfold Sys.writeSock
  split
  · exact h.goto rfl rfl rfl (by nofun)
  · exact h.goto rfl rfl rfl (by nofun)
  · next nwritten =>
    refine ⟨?_, by nofun⟩
    rcases eq_or_ne (s.toBuf.optr + nwritten) s.toBuf.iptr with hall | hpart
    · simp only [hnone, hall, Buf.take, if_true, true_and, and_true]
    · simp only [hpart, Buf.take, if_false, false_and, and_false, hnone]

/-- **Every step keeps the number of calls.** -/
theorem halfClose_step (s : Sys) (a : Act) (s' : Sys) (h : HalfClose s) (hs : step s a = some s') :
    HalfClose s' := by
  cases trans_of_step hs with
  | select _ rStdin rSock wStdout wSock => exact h.selected rStdin rSock wStdout wSock
  | @readStdin hpc res =>
    exact h.readStdin (h.stdin_open hpc (rStdin_of_read hpc hs)) res
  | readSock =>
    unfold Sys.readSock
    split
    · exact h.goto rfl rfl rfl (by nofun)
    · exact h.goto rfl rfl rfl (by nofun)
    · refine h.goto rfl rfl rfl ?_
      dsimp only
      split
      · nofun
      · nofun
    · exact h.goto rfl rfl rfl (by nofun)
  | writeStdout =>
    unfold Sys.writeStdout
    split
    · exact h.goto rfl rfl rfl (by nofun)
    · exact h.goto rfl rfl rfl (by nofun)
    · exact h.goto rfl rfl rfl (by nofun)
  | @writeSock hpc res => exact h.writeSock (pending_of_write hpc hs) res
  | skipStdin | skipSock | skipStdout | skipSockW => exact h.goto rfl rfl rfl (by nofun)

/-- `stdineof` is set when the end of file is read, and at no other time. -/
theorem stdineof_step (s : Sys) (a : Act) (s' : Sys) (_ : True) (hs : step s a = some s') :
    s'.stdineof = false ↔ s.stdineof = false ∧ ¬ReadsEof s a := by
  cases trans_of_step hs with
  | readStdin hpc =>
    unfold Sys.readStdin ReadsEof
    split
    · simp
    · simp
    · simp [hpc]
    · next hne _ => simpa using fun _ _ => hne
  | readSock hpc =>
    unfold Sys.readSock ReadsEof
    split <;> simp [hpc]
  | writeStdout =>
    unfold Sys.writeStdout ReadsEof
    split <;> simp
  | writeSock =>
    unfold Sys.writeSock ReadsEof
    split <;> simp
  | select => simp [Sys.selected, ReadsEof]
  | skipStdin | skipSock | skipStdout | skipSockW => simp [ReadsEof]

/-- What one `shutdown` says of the state. -/
theorem HalfClose.shutdowns_eq_one (h : HalfClose s) :
    s.shutdowns = 1 ↔ s.stdineof = true ∧ s.toBuf.optr = s.toBuf.iptr := by
  rw [h.shutdowns_eq]
  split
  · next hclosed => exact iff_of_true rfl hclosed
  · next hopen => exact iff_of_false (by decide) hopen

/-- After the `shutdown` nothing is read from standard input and nothing is written to the
socket. -/
theorem closed_step {a : Act} (h : HalfClose s) (hclosed : s.shutdowns = 1)
    (hs : step s a = some s') : s'.shutdowns = 1 ∧ s'.toSock = s.toSock := by
  obtain ⟨heof, hempty⟩ := h.shutdowns_eq_one.mp hclosed
  cases trans_of_step hs with
  | readStdin hpc =>
    have hopen := h.stdin_open hpc (rStdin_of_read hpc hs)
    rw [heof] at hopen
    cases hopen
  | writeSock hpc => exact absurd hempty (pending_of_write hpc hs)
  | readSock =>
    unfold Sys.readSock
    split <;> exact ⟨hclosed, rfl⟩
  | writeStdout =>
    unfold Sys.writeStdout
    split <;> exact ⟨hclosed, rfl⟩
  | select | skipStdin | skipSock | skipStdout | skipSockW => exact ⟨hclosed, rfl⟩

/-- The same for a whole run. -/
theorem closed_run {t : Sys} (h : HalfClose s) (hclosed : s.shutdowns = 1)
    (ht : Reachable step s t) : t.shutdowns = 1 ∧ t.toSock = s.toSock := by
  have hinv := exec_invariant
    (I := fun t => HalfClose t ∧ t.shutdowns = 1 ∧ t.toSock = s.toSock)
    (fun t a t' hI hstep => by
      obtain ⟨hhalf, hone, hsock⟩ := hI
      obtain ⟨hone', hsock'⟩ := closed_step hhalf hone hstep
      exact ⟨halfClose_step t a t' hhalf hstep, hone', hsock'.trans hsock⟩)
    ⟨h, hclosed, rfl⟩ ht
  exact hinv.2

end

/-- The program's flag says whether the end of standard input has been read. -/
theorem eofRead_iff (tobuf frbuf : Vector UInt8 maxLine) (run : List Act) (s : Sys)
    (h : exec step (init tobuf frbuf) run = some s) :
    EofRead (init tobuf frbuf) run ↔ s.stdineof = true := by
  have hiff := exec_iff_along (I := fun _ => True) (fun _ _ _ _ _ => trivial) stdineof_step
    run (init tobuf frbuf) s trivial h
  rw [EofRead, ← Bool.not_eq_false, hiff]
  exact not_congr (and_iff_right rfl).symm

/-- **Half close.**  In every run: `shutdown` is called at most once; if it has been called,
the end of standard input has been read, every byte read from there has been written to the
socket, and no byte is written to the socket later on; and if the end of standard input has
been read and `to` is empty at the top of the loop, it has been called. -/
theorem half_close (tobuf frbuf : Vector UInt8 maxLine) (run : List Act) (s : Sys)
    (h : exec step (init tobuf frbuf) run = some s) :
    s.shutdowns ≤ 1 ∧
    (s.shutdowns = 1 → EofRead (init tobuf frbuf) run ∧ s.toSock = s.fromStdin ∧
      ∀ t, Reachable step s t → t.toSock = s.toSock) ∧
    (s.pc = .select → EofRead (init tobuf frbuf) run → s.toBuf.optr = s.toBuf.iptr →
      s.shutdowns = 1) := by
  have hcopies : Copies s := exec_invariant copies_step (copies_init tobuf frbuf) ⟨run, h⟩
  have hhalf : HalfClose s := exec_invariant halfClose_step (halfClose_init tobuf frbuf) ⟨run, h⟩
  rw [eofRead_iff tobuf frbuf run s h]
  refine ⟨?_, ?_, ?_⟩
  · rw [hhalf.shutdowns_eq]
    split <;> decide
  · intro hone
    obtain ⟨heof, hempty⟩ := hhalf.shutdowns_eq_one.mp hone
    exact ⟨heof, hcopies.to_carries.eq_iff.mpr hempty, fun t ht => (closed_run hhalf hone ht).2⟩
  · intro _ heof hempty
    exact hhalf.shutdowns_eq_one.mpr ⟨heof, hempty⟩

/-- The end of standard input is read while a byte is left in `to`, which is written in the
next turn of the loop. -/
def lateRun : List Act :=
  [.select true false false false, .read (.ok [104, 105]), .skip, .skip, .write (.ok 1),
   .select true false false false, .read (.ok []), .skip, .skip, .skip,
   .select false false false true, .skip, .skip, .skip, .write (.ok 1)]

theorem half_close_lateRun :
    ∃ s, exec step (init (.replicate maxLine 0) (.replicate maxLine 0)) lateRun = some s ∧
      s.shutdowns = 1 ∧ s.fromStdin = [104, 105] ∧ s.toSock = s.fromStdin ∧
      EofRead (init (.replicate maxLine 0) (.replicate maxLine 0)) lateRun := by
  obtain ⟨s, hs, hfacts⟩ := Option.map_eq_some_iff.mp
    (show (exec step (init (.replicate maxLine 0) (.replicate maxLine 0)) lateRun).map
      (fun s => (s.shutdowns, s.fromStdin)) = some (1, [104, 105]) by decide)
  simp only [Prod.mk.injEq] at hfacts
  obtain ⟨heof, hall, -⟩ := (half_close _ _ lateRun s hs).2.1 hfacts.1
  exact ⟨s, hs, hfacts.1, hfacts.2, hall, heof⟩

end StrCli
end TcpIp
