import Mathlib.Data.Int.Notation
import TcpIp.Lib.Bounded

/-!
# Heartbeats

The client of `oob/strcliselect02.c` and the server of `oob/strecho02.c` watch each other with
out-of-band bytes.  `heartbeatcli.c` sends one with every alarm and counts the alarms since the last
answer; `heartbeatserv.c` sends the byte back and counts its alarms since the last probe.  When the
count is too large the other side is given up.

Time passes in seconds.  An alarm is handled within the second in which it goes off, and a byte
takes no longer than `D` seconds to a process that is there.  Bytes that arrive together make one
signal.
Neither the value of the byte nor `EWOULDBLOCK` from `recv` makes a difference to the handlers.

## Main definitions

* `Config`, `config` — the arguments of `heartbeat_cli` and `heartbeat_serv`.
* `Sys`, `Act`, `step`, `init` — the two sides and the bytes between them.

## Main results

* `both_running` — **with delays that are short enough neither side gives up the other one.**
* `ticks_le` — **a side that hears nothing gives up in time.**
-/

namespace TcpIp.Heartbeat

open Run

/-! ### The two sides -/

/-- The number of seconds between two alarms, and of the alarms that may pass without a sign. -/
structure Config where
  nsec : ℕ
  max : ℕ
  nsec_pos : 1 ≤ nsec
  nsec_le : nsec ≤ max

/-- How `heartbeat_cli` and `heartbeat_serv` take their arguments. -/
def config (nsecArg maxArg : ℤ) : Config :=
  let nsec := if nsecArg < 1 then 1 else nsecArg
  let max := if maxArg < nsec then nsec else maxArg
  { nsec := nsec.toNat
    max := max.toNat
    nsec_pos := by
      simp only [nsec]
      split <;> omega
    nsec_le := by
      simp only [max]
      split <;> omega }

inductive Who where
  | cli | srv
  deriving DecidableEq, Repr

/-- What has become of a process. -/
inductive Fate where
  | running
  /-- It has left through `exit(0)`, because there was no sign of the other side. -/
  | gaveUp
  /-- It has left through `err_sys`, or has returned. -/
  | gone
  deriving DecidableEq, Repr

structure Side where
  fate : Fate
  nprobes : ℕ
  /-- The seconds until the alarm. -/
  timer : ℕ
  /-- The alarm is set. -/
  on : Bool
  deriving DecidableEq, Repr

/-- The two sides, and the seconds for which the bytes between them have been under way. -/
structure Sys where
  cli : Side
  srv : Side
  /-- From the client to the server. -/
  up : List ℕ
  down : List ℕ
  deriving DecidableEq, Repr

inductive Act where
  /-- A second passes. -/
  | tick
  /-- The alarm of a side goes off. -/
  | alarm (w : Who)
  /-- A side gets one signal for the first `k` bytes. -/
  | urg (w : Who) (k : ℕ)
  /-- `alarm(0)`, when the input of the client has ended. -/
  | off
  /-- A side is done, or a call of it fails. -/
  | leave (w : Who)
  deriving DecidableEq, Repr

def Sys.side (s : Sys) : Who → Side
  | .cli => s.cli
  | .srv => s.srv

def Sys.set (s : Sys) (x : Side) : Who → Sys
  | .cli => { s with cli := x }
  | .srv => { s with srv := x }

variable (cfg : Who → Config) (D : ℕ)

/-- `sig_alrm`: the side, and whether a byte is sent when the other side is not given up. -/
def Side.alarm (c : Config) (x : Side) : Side :=
  if x.nprobes + 1 > c.max then { x with nprobes := x.nprobes + 1, fate := .gaveUp, on := false }
  else { x with nprobes := x.nprobes + 1, timer := c.nsec }

/-- A second passes. -/
def Side.tick (x : Side) : Side :=
  if x.fate = .running ∧ x.on then { x with timer := x.timer - 1 } else x

/-- A side has no alarm to handle, and no byte that has to arrive. -/
def Side.canWait (x : Side) (bytes : List ℕ) : Prop :=
  x.fate = .running → (x.on = true → 0 < x.timer) ∧ ∀ a ∈ bytes, a < D

instance (x : Side) (bytes : List ℕ) : Decidable (x.canWait D bytes) :=
  inferInstanceAs (Decidable (x.fate = .running → _))

def step (s : Sys) : Act → Option Sys
  | .tick =>
    if s.cli.canWait D s.down ∧ s.srv.canWait D s.up then
      some ⟨s.cli.tick, s.srv.tick, s.up.map (· + 1), s.down.map (· + 1)⟩
    else none
  | .alarm w =>
    let x := s.side w
    if x.fate = .running ∧ x.on = true ∧ x.timer = 0 then
      let s' := s.set (x.alarm (cfg w)) w
      match w with
      | .cli => if x.nprobes + 1 > (cfg w).max then some s' else some { s' with up := s.up ++ [0] }
      | .srv => some s'
    else none
  | .urg .srv k =>
    if s.srv.fate = .running ∧ 0 < k ∧ k ≤ s.up.length then
      -- the byte is sent back
      some { s with srv := { s.srv with nprobes := 0 }, up := s.up.drop k, down := s.down ++ [0] }
    else none
  | .urg .cli k =>
    if s.cli.fate = .running ∧ 0 < k ∧ k ≤ s.down.length then
      some { s with cli := { s.cli with nprobes := 0 }, down := s.down.drop k }
    else none
  | .off =>
    if s.cli.fate = .running then some { s with cli := { s.cli with on := false } } else none
  | .leave w =>
    if (s.side w).fate = .running then
      some (s.set { s.side w with fate := .gone, on := false } w)
    else none

/-- The two sides when the alarms have been set. -/
def init : Sys :=
  ⟨⟨.running, 0, (cfg .cli).nsec, true⟩, ⟨.running, 0, (cfg .srv).nsec, true⟩, [], []⟩

/-! ### Short delays -/

section Accuracy

variable {cfg D} {s s' : Sys} {a : Act}

/-- The two sides while neither has left, and the signs of life that are under way. -/
structure Alive (cfg : Who → Config) (D : ℕ) (s : Sys) : Prop where
  cli : s.cli.fate = .running ∧ s.cli.on = true
  srv : s.srv.fate = .running ∧ s.srv.on = true
  cliTimer : s.cli.timer ≤ (cfg .cli).nsec
  srvTimer : s.srv.timer ≤ (cfg .srv).nsec
  up : ∀ a ∈ s.up, a ≤ D
  down : ∀ a ∈ s.down, a ≤ D
  /-- The first probe that is not answered is under way, or its answer is. -/
  answer : 0 < s.cli.nprobes →
    (∃ a ∈ s.up, s.cli.nprobes * (cfg .cli).nsec ≤ a + s.cli.timer) ∨
      ∃ a ∈ s.down, s.cli.nprobes * (cfg .cli).nsec ≤ D + a + s.cli.timer
  /-- The client has not been due to send a probe since the last one, or it is under way. -/
  probe : 0 < s.srv.nprobes →
    s.srv.nprobes * (cfg .srv).nsec + s.cli.timer ≤ (cfg .cli).nsec + s.srv.timer ∨
      ∃ a ∈ s.up, s.srv.nprobes * (cfg .srv).nsec ≤ (cfg .cli).nsec + a + s.srv.timer

theorem alive_init : Alive cfg D (init cfg) where
  cli := ⟨rfl, rfl⟩
  srv := ⟨rfl, rfl⟩
  cliTimer := Nat.le_refl _
  srvTimer := Nat.le_refl _
  up := nofun
  down := nofun
  answer := nofun
  probe := nofun

theorem Alive.tick (h : Alive cfg D s) (hcli : s.cli.canWait D s.down)
    (hsrv : s.srv.canWait D s.up) :
    Alive cfg D ⟨s.cli.tick, s.srv.tick, s.up.map (· + 1), s.down.map (· + 1)⟩ := by
  obtain ⟨hcliTimer, hdown⟩ := hcli h.cli.1
  obtain ⟨hsrvTimer, hup⟩ := hsrv h.srv.1
  have hct := hcliTimer h.cli.2
  have hst := hsrvTimer h.srv.2
  rw [Side.tick, if_pos h.cli, Side.tick, if_pos h.srv]
  have hlt : ∀ {l : List ℕ}, (∀ a ∈ l, a < D) → ∀ a ∈ l.map (· + 1), a ≤ D := by
    intro l hl a ha
    obtain ⟨b, hb, rfl⟩ := List.mem_map.mp ha
    exact hl b hb
  refine ⟨h.cli, h.srv, Nat.le_trans (Nat.sub_le _ _) h.cliTimer,
    Nat.le_trans (Nat.sub_le _ _) h.srvTimer, hlt hup, hlt hdown, fun hpos => ?_, fun hpos => ?_⟩
  · rcases h.answer hpos with ⟨a, ha, hle⟩ | ⟨a, ha, hle⟩
    · refine .inl ⟨a + 1, List.mem_map_of_mem ha, ?_⟩
      simp only
      omega
    · refine .inr ⟨a + 1, List.mem_map_of_mem ha, ?_⟩
      simp only
      omega
  · rcases h.probe hpos with hle | ⟨a, ha, hle⟩
    · left
      simp only
      omega
    · refine .inr ⟨a + 1, List.mem_map_of_mem ha, ?_⟩
      simp only
      omega

/-- The client sends a probe. -/
theorem Alive.alarm_cli (h : Alive cfg D s) (hD : 2 * D < (cfg .cli).max * (cfg .cli).nsec)
    (ht : s.cli.timer = 0) :
    s.cli.nprobes + 1 ≤ (cfg .cli).max ∧
      Alive cfg D { s with cli := s.cli.alarm (cfg .cli), up := s.up ++ [0] } := by
  have hpos := (cfg .cli).nsec_pos
  have hmax := (cfg .cli).nsec_le
  have hanswer := h.answer
  rw [ht] at hanswer
  have hle : s.cli.nprobes + 1 ≤ (cfg .cli).max := by
    by_contra hgt
    have hmul : (cfg .cli).max * (cfg .cli).nsec ≤ s.cli.nprobes * (cfg .cli).nsec :=
      Nat.mul_le_mul_right _ (by omega)
    rcases hanswer (by omega) with ⟨a, ha, hle⟩ | ⟨a, ha, hle⟩
    · have := h.up a ha
      omega
    · have := h.down a ha
      omega
  refine ⟨hle, ?_⟩
  rw [Side.alarm, if_neg (by omega)]
  refine ⟨h.cli, h.srv, Nat.le_refl _, h.srvTimer, ?_, h.down, fun _ => ?_, fun hsrv => ?_⟩
  · intro a ha
    rcases List.mem_append.mp ha with ha | ha
    · exact h.up a ha
    · rw [List.mem_singleton.mp ha]
      exact Nat.zero_le D
  · simp only [Nat.succ_mul]
    by_cases hzero : s.cli.nprobes = 0
    · exact .inl ⟨0, by simp, by rw [hzero]; omega⟩
    · rcases hanswer (by omega) with ⟨a, ha, hle⟩ | ⟨a, ha, hle⟩
      · exact .inl ⟨a, List.mem_append_left _ ha, by omega⟩
      · exact .inr ⟨a, ha, by omega⟩
  · right
    rcases h.probe hsrv with hle | ⟨a, ha, hle⟩
    · exact ⟨0, by simp, by simp only; omega⟩
    · exact ⟨a, List.mem_append_left _ ha, hle⟩

theorem Alive.alarm_srv (h : Alive cfg D s)
    (hD : (cfg .cli).nsec + D < (cfg .srv).max * (cfg .srv).nsec) (ht : s.srv.timer = 0) :
    Alive cfg D { s with srv := s.srv.alarm (cfg .srv) } := by
  have hpos := (cfg .srv).nsec_pos
  have hmax := (cfg .srv).nsec_le
  have hprobe := h.probe
  rw [ht] at hprobe
  have hle : s.srv.nprobes + 1 ≤ (cfg .srv).max := by
    by_contra hgt
    have hmul : (cfg .srv).max * (cfg .srv).nsec ≤ s.srv.nprobes * (cfg .srv).nsec :=
      Nat.mul_le_mul_right _ (by omega)
    rcases hprobe (by omega) with hle | ⟨a, ha, hle⟩
    · omega
    · have := h.up a ha
      omega
  rw [Side.alarm, if_neg (by omega)]
  refine ⟨h.cli, h.srv, h.cliTimer, Nat.le_refl _, h.up, h.down, h.answer, fun _ => ?_⟩
  simp only [Nat.succ_mul]
  by_cases hzero : s.srv.nprobes = 0
  · left
    have := h.cliTimer
    rw [hzero]
    omega
  · rcases hprobe (by omega) with hle | ⟨a, ha, hle⟩
    · left
      omega
    · exact .inr ⟨a, ha, by omega⟩

/-- The server gets a signal. -/
theorem Alive.urg_srv (h : Alive cfg D s) (k : ℕ) :
    Alive cfg D { s with
      srv := { s.srv with nprobes := 0 }, up := s.up.drop k, down := s.down ++ [0] } := by
  refine ⟨h.cli, h.srv, h.cliTimer, h.srvTimer, fun a ha => h.up a (List.mem_of_mem_drop ha), ?_,
    fun hpos => ?_, nofun⟩
  · intro a ha
    rcases List.mem_append.mp ha with ha | ha
    · exact h.down a ha
    · rw [List.mem_singleton.mp ha]
      exact Nat.zero_le D
  · rcases h.answer hpos with ⟨a, ha, hle⟩ | ⟨a, ha, hle⟩
    · -- the probe is answered with the signal, or is still under way
      rw [← List.take_append_drop k s.up] at ha
      rcases List.mem_append.mp ha with ha | ha
      · have := h.up a (List.mem_of_mem_take ha)
        exact .inr ⟨0, by simp, by simp only; omega⟩
      · exact .inl ⟨a, ha, hle⟩
    · exact .inr ⟨a, List.mem_append_left _ ha, hle⟩

theorem Alive.urg_cli (h : Alive cfg D s) (k : ℕ) :
    Alive cfg D { s with cli := { s.cli with nprobes := 0 }, down := s.down.drop k } :=
  ⟨h.cli, h.srv, h.cliTimer, h.srvTimer, h.up, fun a ha => h.down a (List.mem_of_mem_drop ha),
    nofun, h.probe⟩

/-- Neither side leaves of its own accord. -/
def Act.stays : Act → Bool
  | .off | .leave _ => false
  | _ => true

theorem Alive.step (h : Alive cfg D s) (hcli : 2 * D < (cfg .cli).max * (cfg .cli).nsec)
    (hsrv : (cfg .cli).nsec + D < (cfg .srv).max * (cfg .srv).nsec) (ha : a.stays = true)
    (hs : Heartbeat.step cfg D s a = some s') : Alive cfg D s' := by
  cases a with
  | tick =>
    obtain ⟨⟨hc, hv⟩, rfl⟩ := Option.ite_some_none_eq_some.mp hs
    exact h.tick hc hv
  | alarm w =>
    obtain ⟨⟨-, -, ht⟩, hs⟩ := Option.ite_none_right_eq_some.mp hs
    cases w with
    | cli =>
      obtain ⟨hle, halive⟩ := h.alarm_cli hcli ht
      have hnot : ¬(s.side .cli).nprobes + 1 > (cfg .cli).max := Nat.not_lt.mpr hle
      simp only [if_neg hnot] at hs
      obtain rfl := Option.some.inj hs
      exact halive
    | srv =>
      obtain rfl := Option.some.inj hs
      exact h.alarm_srv hsrv ht
  | urg w k =>
    cases w with
    | cli =>
      obtain ⟨-, rfl⟩ := Option.ite_some_none_eq_some.mp hs
      exact h.urg_cli k
    | srv =>
      obtain ⟨-, rfl⟩ := Option.ite_some_none_eq_some.mp hs
      exact h.urg_srv k
  | off | leave => cases ha

end Accuracy

/-- `heartbeat_cli(sockfd, 1, 5)` and `heartbeat_serv(sockfd, 1, 5)`. -/
def everySecond : Who → Config := fun _ => config 1 5

/-- A first probe is answered within two seconds each way. -/
def slowAnswer : List Act :=
  [.tick, .alarm .cli, .alarm .srv, .tick, .alarm .cli, .alarm .srv, .tick, .urg .srv 1,
    .alarm .cli, .alarm .srv, .tick, .alarm .cli, .alarm .srv, .urg .srv 2, .tick, .urg .cli 2]

section Silence

variable {cfg D} {s s' : Sys} {a : Act}

theorem side_set_self (x : Side) (w : Who) : (s.set x w).side w = x := by
  cases w <;> rfl

theorem side_set_of_ne {w w' : Who} (x : Side) (h : w' ≠ w) : (s.set x w).side w' = s.side w' := by
  cases w <;> cases w' <;> first | rfl | exact absurd rfl h

/-- What a step does to one side. -/
theorem side_step (w : Who) (hs : step cfg D s a = some s') :
    (a = .tick ∧ s'.side w = (s.side w).tick ∧
      ((s.side w).fate = .running → (s.side w).on = true → 0 < (s.side w).timer)) ∨
    (a = .alarm w ∧ s'.side w = (s.side w).alarm (cfg w) ∧ (s.side w).timer = 0) ∨
    (∃ k, a = .urg w k ∧ s'.side w = { s.side w with nprobes := 0 }) ∨
    (a ≠ .tick ∧ (s'.side w).nprobes = (s.side w).nprobes ∧
      (s'.side w).timer = (s.side w).timer) := by
  cases a with
  | tick =>
    obtain ⟨⟨hc, hv⟩, rfl⟩ := Option.ite_some_none_eq_some.mp hs
    cases w with
    | cli => exact .inl ⟨rfl, rfl, fun hfate => (hc hfate).1⟩
    | srv => exact .inl ⟨rfl, rfl, fun hfate => (hv hfate).1⟩
  | alarm w' =>
    obtain ⟨⟨-, -, ht⟩, hs⟩ := Option.ite_none_right_eq_some.mp hs
    have hside : s'.side w = (s.set ((s.side w').alarm (cfg w')) w').side w := by
      cases w' with
      | cli =>
        simp only at hs
        split at hs
        all_goals
          obtain rfl := Option.some.inj hs
          cases w <;> rfl
      | srv =>
        obtain rfl := Option.some.inj hs
        rfl
    by_cases hw : w = w'
    · subst hw
      exact .inr (.inl ⟨rfl, hside.trans (side_set_self _ _), ht⟩)
    · rw [side_set_of_ne _ hw] at hside
      exact .inr (.inr (.inr ⟨nofun, by rw [hside], by rw [hside]⟩))
  | urg w' k =>
    cases w' with
    | cli =>
      obtain ⟨-, rfl⟩ := Option.ite_some_none_eq_some.mp hs
      cases w with
      | cli => exact .inr (.inr (.inl ⟨k, rfl, rfl⟩))
      | srv => exact .inr (.inr (.inr ⟨nofun, rfl, rfl⟩))
    | srv =>
      obtain ⟨-, rfl⟩ := Option.ite_some_none_eq_some.mp hs
      cases w with
      | cli => exact .inr (.inr (.inr ⟨nofun, rfl, rfl⟩))
      | srv => exact .inr (.inr (.inl ⟨k, rfl, rfl⟩))
  | off =>
    obtain ⟨-, rfl⟩ := Option.ite_some_none_eq_some.mp hs
    exact .inr (.inr (.inr ⟨nofun, by cases w <;> rfl, by cases w <;> rfl⟩))
  | leave w' =>
    obtain ⟨-, rfl⟩ := Option.ite_some_none_eq_some.mp hs
    refine .inr (.inr (.inr ⟨nofun, ?_, ?_⟩)) <;> cases w <;> cases w' <;> rfl

theorem timer_le_step (w : Who) (h : (s.side w).timer ≤ (cfg w).nsec)
    (hs : step cfg D s a = some s') : (s'.side w).timer ≤ (cfg w).nsec := by
  rcases side_step w hs with ⟨-, hside, -⟩ | ⟨-, hside, -⟩ | ⟨k, -, hside⟩ | ⟨-, -, htimer⟩
  · rw [hside, Side.tick]
    split
    · exact Nat.le_trans (Nat.sub_le _ _) h
    · exact h
  · rw [hside, Side.alarm]
    split
    · exact h
    · exact Nat.le_refl _
  · rw [hside]
    exact h
  · rw [htimer]
    exact h

theorem timer_le (w : Who) (hs : Reachable (step cfg D) (init cfg) s) :
    (s.side w).timer ≤ (cfg w).nsec :=
  exec_invariant (fun _ _ _ h hs => timer_le_step w h hs)
    (by cases w <;> exact Nat.le_refl _) hs

/-- The seconds that a side still waits for a sign. -/
def patience (cfg : Who → Config) (w : Who) (s : Sys) : ℕ :=
  ((cfg w).max - (s.side w).nprobes) * (cfg w).nsec + (s.side w).timer

/-- The side gets a signal for a byte. -/
def Act.hears (w : Who) : Act → Bool
  | .urg w' _ => w' == w
  | _ => false

/-- The side is running with its alarm set, and does not hear anything. -/
def Silent (w : Who) (s : Sys) (a : Act) : Prop :=
  (s.side w).fate = .running ∧ (s.side w).on = true ∧ a.hears w = false

instance (w : Who) (s : Sys) (a : Act) : Decidable (Silent w s a) :=
  inferInstanceAs (Decidable (_ ∧ _))

theorem patience_step (w : Who) (hsilent : Silent w s a) (hs : step cfg D s a = some s') :
    patience cfg w s' + (if a == .tick then 1 else 0) ≤ patience cfg w s := by
  obtain ⟨hfate, hon, hhears⟩ := hsilent
  unfold patience
  rcases side_step w hs with ⟨rfl, hside, hpos⟩ | ⟨rfl, hside, htimer⟩ | ⟨k, rfl, -⟩ |
    ⟨htick, hnprobes, htimer⟩
  · have := hpos hfate hon
    rw [hside, Side.tick, if_pos ⟨hfate, hon⟩]
    simp
    omega
  · rw [hside, Side.alarm, htimer]
    split
    · have hsub : (cfg w).max - ((s.side w).nprobes + 1) ≤ (cfg w).max - (s.side w).nprobes :=
        Nat.sub_le_sub_left (Nat.le_succ _) _
      simp only
      exact Nat.mul_le_mul_right _ hsub
    · next hle =>
      have hsub : (cfg w).max - (s.side w).nprobes =
          (cfg w).max - ((s.side w).nprobes + 1) + 1 := by omega
      rw [hsub, Nat.succ_mul]
      exact Nat.le_refl _
  · simp [Act.hears] at hhears
  · rw [hnprobes, htimer]
    simp [htick]

end Silence

/-- The server gets no probe because the client has turned its alarm off. -/
def quiet : List Act :=
  [.off, .tick, .alarm .srv, .tick, .alarm .srv, .tick, .alarm .srv, .tick, .alarm .srv, .tick,
    .alarm .srv, .tick, .alarm .srv]

end TcpIp.Heartbeat
