import Mathlib.Algebra.Order.Field.Rat
import Mathlib.Data.List.Induction
import Mathlib.Data.Rat.Floor
import Mathlib.Tactic.Linarith
import TcpIp.Rtt.SendRecv

/-!
# Bounds of the estimators and of the timer

`rtt_stop` moves the smoothed time an eighth of the way to the new sample and the
deviation a quarter of the way to the new error.  So neither leaves the range of what it
has been shown, whatever the order of the calls.  The timeout that is computed from the
two is clamped by `rtt_minmax`.

`rtt_timeout` doubles the timeout and does not clamp it.  So `dg_send_recv` may start
the timer with more than `RTT_RXTMAX` seconds, as soon as the timeout has been beyond
half of it before a retransmission.

## Main definitions

* `Call`, `after` — sequences of calls of `rtt.c`.
* `largest` — the largest sample.
* `Backs` — the timeout may be doubled.

## Main results

* `estimators_bounded` — the estimators stay in the range of the samples.
* `timer_bounded` — which runs of `dg_send_recv` keep the timer within the bounds.
-/

namespace TcpIp
namespace Rtt

open Run

/-! ### The clamp -/

theorem rttRxtmin_le_rttMinmax (rto : ℚ) : rttRxtmin ≤ rttMinmax rto := by
  unfold rttMinmax
  split
  · exact le_refl _
  · next hmin =>
    split
    · norm_num [rttRxtmin, rttRxtmax]
    · exact not_lt.mp hmin

theorem rttMinmax_le_rttRxtmax (rto : ℚ) : rttMinmax rto ≤ rttRxtmax := by
  unfold rttMinmax
  split
  · norm_num [rttRxtmin, rttRxtmax]
  · split
    · exact le_refl _
    · next hmax => exact not_lt.mp hmax

/-! ### The estimators -/

/-- A call of `rtt.c` made after `rtt_init`. -/
inductive Call where
  | newpack
  | stop (ms : UInt32)
  | timeout
  deriving DecidableEq, Repr

/-- The values after one call. -/
def Call.apply (ptr : RttInfo) : Call → RttInfo
  | .newpack => rttNewpack ptr
  | .stop ms => rttStop ptr ms
  | .timeout => (rttTimeout ptr).1

/-- The values after all the calls. -/
def after (ptr : RttInfo) (calls : List Call) : RttInfo := calls.foldl Call.apply ptr

/-- A sample in seconds. -/
def seconds (ms : UInt32) : ℚ := ms.toNat / 1000

/-- The larger of `m` and the sample of the call. -/
def Call.larger (m : ℚ) : Call → ℚ
  | .stop ms => max m (seconds ms)
  | _ => m

/-- The largest sample, in seconds; `0` when there is none. -/
def largest (calls : List Call) : ℚ := calls.foldl Call.larger 0

theorem after_concat (ptr : RttInfo) (calls : List Call) (c : Call) :
    after ptr (calls ++ [c]) = c.apply (after ptr calls) := by
  rw [after, List.foldl_append]
  rfl

theorem largest_concat (calls : List Call) (c : Call) :
    largest (calls ++ [c]) = c.larger (largest calls) := by
  rw [largest, List.foldl_append]
  rfl

theorem seconds_nonneg (ms : UInt32) : 0 ≤ seconds ms := by
  unfold seconds
  positivity

/-- The estimators are in the range of samples up to `m`. -/
structure RttInfo.Within (ptr : RttInfo) (m : ℚ) : Prop where
  srtt_nonneg : 0 ≤ ptr.rttSrtt
  srtt_le : ptr.rttSrtt ≤ m
  rttvar_nonneg : 0 ≤ ptr.rttRttvar
  rttvar_le : ptr.rttRttvar ≤ max (3 / 4) m

theorem within_rttInit (ptr : RttInfo) (now : ℕ) : (rttInit ptr now).Within 0 where
  srtt_nonneg := le_refl 0
  srtt_le := le_refl 0
  rttvar_nonneg := by norm_num [rttInit]
  rttvar_le := le_max_left _ _

theorem RttInfo.Within.mono {ptr : RttInfo} {m m' : ℚ} (h : ptr.Within m) (hle : m ≤ m') :
    ptr.Within m' where
  srtt_nonneg := h.srtt_nonneg
  srtt_le := h.srtt_le.trans hle
  rttvar_nonneg := h.rttvar_nonneg
  rttvar_le := h.rttvar_le.trans (max_le_max_left _ hle)

/-- An eighth of the way to the sample. -/
theorem rttSrtt_rttStop (ptr : RttInfo) (ms : UInt32) :
    (rttStop ptr ms).rttSrtt = ptr.rttSrtt + (seconds ms - ptr.rttSrtt) / 8 := rfl

/-- A quarter of the way to the error of the sample against the old mean. -/
theorem rttRttvar_rttStop (ptr : RttInfo) (ms : UInt32) :
    (rttStop ptr ms).rttRttvar =
      ptr.rttRttvar + (|seconds ms - ptr.rttSrtt| - ptr.rttRttvar) / 4 := by
  have habs : (if seconds ms - ptr.rttSrtt < 0 then -(seconds ms - ptr.rttSrtt)
      else seconds ms - ptr.rttSrtt) = |seconds ms - ptr.rttSrtt| := by
    split
    · next hneg => rw [abs_of_neg hneg]
    · next hpos => rw [abs_of_nonneg (not_lt.mp hpos)]
  rw [← habs]
  rfl

/-- **A sample in the range keeps the estimators in the range.** -/
theorem RttInfo.Within.rttStop {ptr : RttInfo} {m : ℚ} (h : ptr.Within m) {ms : UInt32}
    (hle : seconds ms ≤ m) : (rttStop ptr ms).Within m := by
  have hsample := seconds_nonneg ms
  have herr : |seconds ms - ptr.rttSrtt| ≤ m := by
    apply abs_sub_le_of_nonneg_of_le
    · exact hsample
    · exact hle
    · exact h.srtt_nonneg
    · exact h.srtt_le
  constructor
  · rw [rttSrtt_rttStop]
    linarith [h.srtt_nonneg]
  · rw [rttSrtt_rttStop]
    linarith [h.srtt_le]
  · rw [rttRttvar_rttStop]
    linarith [h.rttvar_nonneg, abs_nonneg (seconds ms - ptr.rttSrtt)]
  · rw [rttRttvar_rttStop]
    linarith [h.rttvar_le, herr.trans (le_max_right (3 / 4) m)]

/-- One call. -/
theorem RttInfo.Within.apply {ptr : RttInfo} {m : ℚ} (h : ptr.Within m) (c : Call) :
    (c.apply ptr).Within (c.larger m) := by
  cases c with
  | newpack => exact { h with }
  | stop ms => exact (h.mono (le_max_left _ _)).rttStop (le_max_right _ _)
  | timeout => exact { h with }

/-- Any number of calls. -/
theorem within_after (ptr : RttInfo) (now : ℕ) (calls : List Call) :
    (after (rttInit ptr now) calls).Within (largest calls) := by
  induction calls using List.reverseRecOn with
  | nil => exact within_rttInit ptr now
  | append_singleton calls c ih =>
    rw [after_concat, largest_concat]
    exact ih.apply c

/-- **The estimators stay in the range of the samples**, and every `rtt_stop` leaves a
timeout within the bounds. -/
theorem estimators_bounded (ptr : RttInfo) (now : ℕ) (calls : List Call) :
    (0 ≤ (after (rttInit ptr now) calls).rttSrtt ∧
      (after (rttInit ptr now) calls).rttSrtt ≤ largest calls) ∧
    (0 ≤ (after (rttInit ptr now) calls).rttRttvar ∧
      (after (rttInit ptr now) calls).rttRttvar ≤ max (3 / 4) (largest calls)) ∧
    ∀ ms, rttRxtmin ≤ (after (rttInit ptr now) (calls ++ [.stop ms])).rttRto ∧
      (after (rttInit ptr now) (calls ++ [.stop ms])).rttRto ≤ rttRxtmax := by
  have hwithin := within_after ptr now calls
  refine ⟨⟨hwithin.srtt_nonneg, hwithin.srtt_le⟩, ⟨hwithin.rttvar_nonneg, hwithin.rttvar_le⟩, ?_⟩
  intro ms
  rw [after_concat]
  exact ⟨rttRxtmin_le_rttMinmax _, rttMinmax_le_rttRxtmax _⟩

/-! ### The timer -/

/-- `rtt_start` rounds to the nearest number of seconds. -/
theorem rttStart_eq_floor {ptr : RttInfo} (h : 0 ≤ ptr.rttRto) :
    rttStart ptr = ⌊ptr.rttRto + 1 / 2⌋ := by
  have hnum : 0 ≤ (ptr.rttRto + 1 / 2).num := Rat.num_nonneg.mpr (by linarith)
  rw [Rat.floor_def', rttStart, Int.tdiv_eq_ediv_of_nonneg hnum]

theorem rttRxtmin_le_rttStart {ptr : RttInfo} (h : rttRxtmin ≤ ptr.rttRto) :
    rttRxtmin ≤ rttStart ptr := by
  have hle : (2 : ℤ) ≤ ⌊ptr.rttRto + 1 / 2⌋ := by
    apply Int.le_floor.mpr
    norm_num [rttRxtmin] at h ⊢
    linarith
  rw [rttStart_eq_floor (le_trans (by norm_num [rttRxtmin]) h), rttRxtmin]
  exact_mod_cast hle

/-- Which timeouts are not beyond `RTT_RXTMAX`, when rounded. -/
theorem rttStart_le_rttRxtmax_iff {ptr : RttInfo} (h : 0 ≤ ptr.rttRto) :
    rttStart ptr ≤ rttRxtmax ↔ ptr.rttRto < rttRxtmax + 1 / 2 := by
  have hfloor : ⌊ptr.rttRto + 1 / 2⌋ ≤ (60 : ℤ) ↔ ptr.rttRto + 1 / 2 < 61 := by
    rw [← Int.lt_add_one_iff, Int.floor_lt]
    norm_num
  have hcast : (rttStart ptr : ℚ) ≤ rttRxtmax ↔ rttStart ptr ≤ 60 := by
    rw [rttRxtmax]
    exact_mod_cast Iff.rfl
  rw [hcast, rttStart_eq_floor h, hfloor, rttRxtmax]
  constructor
  · intro hlt
    linarith
  · intro hlt
    linarith

/-- When there is to be a retransmission. -/
theorem rttTimeout_snd_iff {ptr : RttInfo} :
    (rttTimeout ptr).2 = false ↔ ptr.rttNrexmt < rttMaxnrexmt := by
  rw [rttTimeout, decide_eq_false_iff_not, not_lt]
  exact Nat.succ_le_iff

/-- What a step does to the estimators, the timer and the place in `dg_send_recv`. -/
inductive Moves (s s' : Sys) (a : Act) : Prop
  | begin (hinfo : s'.rttinfo = rttNewpack (if s.rttinit then s.rttinfo
        else rttInit s.rttinfo s.now)) (hinit : s'.rttinit = true) (hpc : s'.pc = .sendagain)
  | alarm (hpc : s.pc = .alarm) (hinfo : s'.rttinfo = s.rttinfo)
      (hinit : s'.rttinit = s.rttinit) (htimer : s'.timer = rttStart s.rttinfo)
  | stop (ms : UInt32) (hinfo : s'.rttinfo = rttStop s.rttinfo ms) (hpc : s'.pc = .idle)
  | giveUp (hinit : s'.rttinit = false) (hpc : s'.pc = .idle)
  | again (hpc : s.pc = .timeout) (ha : a = .client) (hnrexmt : s.rttinfo.rttNrexmt < rttMaxnrexmt)
      (hinfo : s'.rttinfo = (rttTimeout s.rttinfo).1) (hinit : s'.rttinit = s.rttinit)
      (hpc' : s'.pc = .sendagain)
  | other (hinfo : s'.rttinfo = s.rttinfo) (hinit : s'.rttinit = s.rttinit)
      (htimer : s'.timer = s.timer) (hidle : s.pc = .idle → s'.pc = .idle)
      (harmed : s'.pc = .sigsetjmp → s.pc = .sigsetjmp)

theorem moves_clientStep {s s' : Sys} (hs : s.clientStep = some s') : Moves s s' .client := by
  unfold Sys.clientStep at hs
  split at hs
  case h_3 hpc =>
    cases hs
    exact .alarm hpc rfl rfl rfl
  case h_7 n hpc =>
    cases hs
    exact .stop _ rfl rfl
  case h_8 hpc =>
    split at hs
    · cases hs
      exact .giveUp rfl rfl
    · next hagain =>
      cases hs
      exact .again hpc rfl (rttTimeout_snd_iff.mp (Bool.eq_false_iff.mpr hagain)) rfl rfl rfl
  case h_5 n hpc =>
    split at hs
    · cases hs
      exact .other rfl rfl rfl (by rw [hpc]; nofun) (by nofun)
    · cases hs
      exact .other rfl rfl rfl (by rw [hpc]; nofun) (by nofun)
  case h_9 => cases hs
  all_goals
    next hpc =>
    cases hs
    exact .other rfl rfl rfl (by rw [hpc]; nofun) (by nofun)

theorem moves_step {s s' : Sys} {a : Act} (hs : step s a = some s') : Moves s s' a := by
  cases a with
  | call outbuff inbuff inbytes =>
    obtain ⟨-, heq⟩ := Option.ite_none_right_eq_some.mp hs
    cases heq
    exact .begin rfl rfl rfl
  | client => exact moves_clientStep hs
  | sigalrm =>
    obtain ⟨hint, heq⟩ := Option.ite_none_right_eq_some.mp hs
    cases heq
    refine .other rfl rfl rfl ?_ ?_
    · intro hpc
      rw [hpc] at hint
      cases hint
    · intro hpc
      dsimp only at hpc
      split at hpc <;> cases hpc
  | server k =>
    obtain ⟨e, -, heq⟩ := Option.map_eq_some_iff.mp hs
    cases heq
    exact .other rfl rfl rfl id id
  | recvmsg j =>
    obtain ⟨hpc, heq⟩ := Option.ite_none_right_eq_some.mp hs
    obtain ⟨r, -, heq⟩ := Option.map_eq_some_iff.mp heq
    cases heq
    exact .other rfl rfl rfl (by rw [hpc]; nofun) (by nofun)
  | tick d =>
    cases hs
    exact .other rfl rfl rfl id id

/-- The timeout is not below `RTT_RXTMIN`. -/
structure Low (s : Sys) : Prop where
  started : s.pc ≠ .idle → s.rttinit = true
  rto : s.rttinit = true → rttRxtmin ≤ s.rttinfo.rttRto
  timer : s.pc = .sigsetjmp → rttRxtmin ≤ s.timer

theorem low_init (now : ℕ) : Low (init now) where
  started := fun h => absurd rfl h
  rto := by nofun
  timer := by nofun

/-- No step takes the timeout below `RTT_RXTMIN`. -/
theorem low_step (s : Sys) (a : Act) (s' : Sys) (h : Low s) (hs : step s a = some s') : Low s' := by
  cases moves_step hs with
  | begin hinfo hinit hpc =>
    refine ⟨fun _ => hinit, fun _ => ?_, by rw [hpc]; nofun⟩
    rw [hinfo]
    split
    · next hold => exact h.rto hold
    · exact rttRxtmin_le_rttMinmax _
  | alarm hpc hinfo hinit htimer =>
    have hstarted := h.started (by rw [hpc]; nofun)
    refine ⟨fun _ => hinit.trans hstarted, by rw [hinit, hinfo]; exact h.rto, fun _ => ?_⟩
    rw [htimer]
    exact rttRxtmin_le_rttStart (h.rto hstarted)
  | stop ms hinfo hpc =>
    refine ⟨fun hne => absurd hpc hne, fun _ => ?_, by rw [hpc]; nofun⟩
    rw [hinfo]
    exact rttRxtmin_le_rttMinmax _
  | giveUp hinit hpc =>
    exact ⟨fun hne => absurd hpc hne, by rw [hinit]; nofun, by rw [hpc]; nofun⟩
  | again hpc ha hnrexmt hinfo hinit hpc' =>
    have hstarted := h.started (by rw [hpc]; nofun)
    refine ⟨fun _ => hinit.trans hstarted, fun _ => ?_, by rw [hpc']; nofun⟩
    rw [hinfo]
    have hnonneg : (0 : ℚ) ≤ rttRxtmin := by norm_num [rttRxtmin]
    show rttRxtmin ≤ s.rttinfo.rttRto * 2
    linarith [h.rto hstarted]
  | other hinfo hinit htimer hidle harmed =>
    refine ⟨fun hne => ?_, by rw [hinit, hinfo]; exact h.rto, ?_⟩
    · rw [hinit]
      exact h.started fun hpc => hne (hidle hpc)
    · intro hpc
      rw [htimer]
      exact h.timer (harmed hpc)

/-- A timeout that is doubled for a retransmission is not beyond `RTT_RXTMAX` then, when
rounded. -/
def Backs (s : Sys) (a : Act) : Prop :=
  s.pc = .timeout → a = .client → s.rttinfo.rttNrexmt < rttMaxnrexmt →
    s.rttinfo.rttRto * 2 < rttRxtmax + 1 / 2

instance (s : Sys) (a : Act) : Decidable (Backs s a) :=
  inferInstanceAs (Decidable (_ → _ → _ → _))

/-- The timeout is not beyond `RTT_RXTMAX`, when rounded. -/
structure High (s : Sys) : Prop where
  low : Low s
  rto : s.rttinit = true → s.rttinfo.rttRto < rttRxtmax + 1 / 2
  timer : s.pc = .sigsetjmp → s.timer ≤ rttRxtmax

theorem high_init (now : ℕ) : High (init now) where
  low := low_init now
  rto := by nofun
  timer := by nofun

/-- The clamped values are below the bound. -/
theorem rttMinmax_lt (rto : ℚ) : rttMinmax rto < rttRxtmax + 1 / 2 := by
  linarith [rttMinmax_le_rttRxtmax rto]

/-- A step takes the timeout beyond `RTT_RXTMAX` by doubling it only. -/
theorem high_step (s : Sys) (a : Act) (s' : Sys) (h : High s) (hbacks : Backs s a)
    (hs : step s a = some s') : High s' := by
  have hlow := low_step s a s' h.low hs
  cases moves_step hs with
  | begin hinfo hinit hpc =>
    refine ⟨hlow, fun _ => ?_, by rw [hpc]; nofun⟩
    rw [hinfo]
    split
    · next hold => exact h.rto hold
    · exact rttMinmax_lt _
  | alarm hpc hinfo hinit htimer =>
    have hstarted := h.low.started (by rw [hpc]; nofun)
    refine ⟨hlow, by rw [hinit, hinfo]; exact h.rto, fun _ => ?_⟩
    have hnonneg : 0 ≤ s.rttinfo.rttRto :=
      le_trans (by norm_num [rttRxtmin]) (h.low.rto hstarted)
    rw [htimer]
    exact (rttStart_le_rttRxtmax_iff hnonneg).mpr (h.rto hstarted)
  | stop ms hinfo hpc =>
    refine ⟨hlow, fun _ => ?_, by rw [hpc]; nofun⟩
    rw [hinfo]
    exact rttMinmax_lt _
  | giveUp hinit hpc => exact ⟨hlow, by rw [hinit]; nofun, by rw [hpc]; nofun⟩
  | again hpc ha hnrexmt hinfo hinit hpc' =>
    refine ⟨hlow, fun _ => ?_, by rw [hpc']; nofun⟩
    rw [hinfo]
    exact hbacks hpc ha hnrexmt
  | other hinfo hinit htimer hidle harmed =>
    refine ⟨hlow, by rw [hinit, hinfo]; exact h.rto, fun hpc => ?_⟩
    rw [htimer]
    exact h.timer (harmed hpc)

/-- A timeout that is too long for being doubled is used for the next transmission. -/
theorem timer_of_not_backs {s : Sys} (hpc : s.pc = .timeout)
    (hnrexmt : s.rttinfo.rttNrexmt < rttMaxnrexmt)
    (hrto : ¬s.rttinfo.rttRto * 2 < rttRxtmax + 1 / 2) :
    ∃ s', exec step s [.client, .client, .client, .client] = some s' ∧
      s'.pc = .sigsetjmp ∧ rttRxtmax < s'.timer := by
  have hagain : (rttTimeout s.rttinfo).2 = false := rttTimeout_snd_iff.mpr hnrexmt
  have hnonneg : 0 ≤ (rttTimeout s.rttinfo).1.rttRto := by
    refine le_trans ?_ (not_lt.mp hrto)
    norm_num [rttRxtmax]
  have hlong : rttRxtmax < rttStart (rttTimeout s.rttinfo).1 :=
    lt_of_not_ge fun hge => hrto ((rttStart_le_rttRxtmax_iff hnonneg).mp hge)
  have hexec : (exec step s [.client, .client, .client, .client]).map
      (fun s' => (s'.pc, s'.timer)) = some (.sigsetjmp, rttStart (rttTimeout s.rttinfo).1) := by
    simp only [exec, step, Sys.clientStep, hpc, hagain, Bool.false_eq_true, if_false,
      Option.bind_some, Option.map_some]
  obtain ⟨s', hs', heq⟩ := Option.map_eq_some_iff.mp hexec
  rw [Prod.mk.injEq] at heq
  exact ⟨s', hs', heq.1, by rw [heq.2]; exact hlong⟩

/-- **The timer.**  It is never started with less than `RTT_RXTMIN` seconds, and never with
more than `RTT_RXTMAX` in a run that doubles no timeout too long for it; a retransmission
that does so starts it with more. -/
theorem timer_bounded (now : ℕ) :
    (∀ (as : List Act) (s : Sys), exec step (init now) as = some s → s.pc = .sigsetjmp →
      rttRxtmin ≤ s.timer ∧ (Along step Backs (init now) as → s.timer ≤ rttRxtmax)) ∧
    ∀ s : Sys, Reachable step (init now) s → s.pc = .timeout →
      s.rttinfo.rttNrexmt < rttMaxnrexmt → ¬Backs s .client →
      ∃ s', exec step s [.client, .client, .client, .client] = some s' ∧
        s'.pc = .sigsetjmp ∧ ¬s'.timer ≤ rttRxtmax := by
  refine ⟨fun as s hs hpc => ⟨?_, fun hbacks => ?_⟩, fun s _ hpc hnrexmt hnot => ?_⟩
  · exact (exec_invariant low_step (low_init now) ⟨as, hs⟩).timer hpc
  · exact (exec_invariant_along high_step as (init now) s (high_init now) hbacks hs).timer hpc
  · have hrto : ¬s.rttinfo.rttRto * 2 < rttRxtmax + 1 / 2 := fun hlt => hnot fun _ _ _ => hlt
    obtain ⟨s', hs', hpc', hlong⟩ := timer_of_not_backs hpc hnrexmt hrto
    exact ⟨s', hs', hpc', not_le.mpr hlong⟩

/-- A call whose first three datagrams are answered too late: after `3`, `9` and `21`
seconds they are sent again, and the answer to the first comes after `40` seconds.  In the
next call the timer expires once. -/
def slowAnswer : List Act :=
  [.call [] [] 0, .client, .client, .client, .client,
   .tick 3000000, .sigalrm, .client, .client, .client, .client, .client,
   .tick 6000000, .sigalrm, .client, .client, .client, .client, .client,
   .tick 12000000, .sigalrm, .client, .client, .client, .client, .client,
   .tick 19000000, .server 0, .recvmsg 0, .client, .client, .client,
   .call [] [] 0, .client, .client, .client, .client,
   .tick 47000000, .sigalrm, .client, .client, .client, .client]

/-- The three retransmissions of the first call keep to the bounds. -/
theorem timer_bounded_first_call :
    ∃ s, exec step (init 0) (slowAnswer.take 25) = some s ∧ s.pc = .sigsetjmp ∧
      rttRxtmin ≤ s.timer ∧ s.timer ≤ rttRxtmax := by
  obtain ⟨s, hs, hpc⟩ := Option.map_eq_some_iff.mp
    (show (exec step (init 0) (slowAnswer.take 25)).map (·.pc) = some .sigsetjmp by
      decide +kernel)
  obtain ⟨hmin, hmax⟩ := (timer_bounded 0).1 _ s hs hpc
  exact ⟨s, hs, hpc, hmin, hmax (by decide +kernel)⟩

/-- The timeout of `47.25` seconds is doubled, and the timer started with `95`. -/
theorem timer_beyond_rttRxtmax :
    ∃ s, exec step (init 0) slowAnswer = some s ∧ s.pc = .sigsetjmp ∧ s.timer = 95 ∧
      ¬s.timer ≤ rttRxtmax := by
  obtain ⟨s, hs, heq⟩ := Option.map_eq_some_iff.mp
    (show (exec step (init 0) slowAnswer).map (fun s => (s.pc, s.timer)) =
      some (.sigsetjmp, 95) by decide +kernel)
  rw [Prod.mk.injEq] at heq
  refine ⟨s, hs, heq.1, heq.2, ?_⟩
  rw [heq.2]
  norm_num [rttRxtmax]

end Rtt
end TcpIp
