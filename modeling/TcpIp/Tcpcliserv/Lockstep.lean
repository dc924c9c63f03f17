import Mathlib.Data.List.Infix
import TcpIp.Lib.Bytes
import TcpIp.Readline.Stream

/-!
# A line at a time

The echo client and its server without their buffers: the client sends a line, and does nothing else
until a line has come back.  The bytes of a line are, one behind the other, with the client that
has received them, on their way back, with the server, on their way there, and with the client that
has still to send them.

Both sides cut the input alike.  `Fgets` reads up to a newline or `MAXLINE - 1` bytes, and so does
`Readline`; but what is sent for a line ends in front of the first zero byte, and standard input may
end in the middle of a line.  Such a line is not complete, and `Readline` waits for more of it.

## Main definitions

* `pieces` — what is sent for the lines of an input.
* `State`, `Works`, `Hangs`, `Fails` — the system, and what may happen in it.
* `Flow` — no byte is lost, doubled or overtaken.
* `Turn` — the lines that have come back, and the one that is under way.
* `measure` — a bound for what is left to do.

## Main results

* `Flow.works`, `Flow.hangs`, `Flow.fails` — nothing else comes back, whatever fails.
* `Turn.works`, `works_lt` — one step.
* `Turn.stuck` — where the system stops.
-/

namespace TcpIp.Echo

open Readline Cut
open Bytes (cstring)

/-! ### Lines -/

/-- The line that `Fgets(sendline, MAXLINE, fp)` stores. -/
def line (input : List UInt8) : List UInt8 := (cut isNewline (maxLine - 1) input).1

/-- The `strlen(sendline)` bytes that are sent. -/
def sendline (input : List UInt8) : List UInt8 := cstring (line input) 0

/-- The bytes are what `Readline` returns for: there is a newline at the end of them, or no room for
another one. -/
def Complete (p : List UInt8) : Prop := p.getLast? = some newline ∨ p.length = maxLine - 1

instance (p : List UInt8) : Decidable (Complete p) := inferInstanceAs (Decidable (_ ∨ _))

theorem line_ne_nil {input : List UInt8} (h : input ≠ []) : line input ≠ [] :=
  cut_ne_nil (by decide) h

/-- What is sent for the lines of an input. -/
def pieces (input : List UInt8) : List (List UInt8) :=
  if input = [] then []
  else sendline input :: pieces (input.drop (line input).length)
termination_by input.length
decreasing_by
  have hpos := List.length_pos_of_ne_nil (line_ne_nil ‹input ≠ []›)
  have hne := List.length_pos_of_ne_nil ‹input ≠ []›
  rw [List.length_drop]
  omega

theorem pieces_nil : pieces [] = [] := by
  rw [pieces, if_pos rfl]

theorem pieces_of_ne_nil {input : List UInt8} (h : input ≠ []) :
    pieces input = sendline input :: pieces (input.drop (line input).length) := by
  rw [pieces, if_neg h]

theorem sendline_isPrefix (input : List UInt8) : sendline input <+: line input := by
  rw [sendline, cstring, List.drop_zero]
  exact List.takeWhile_prefix _

theorem zero_notMem_pieces (input : List UInt8) : 0 ∉ (pieces input).flatten := by
  induction input using pieces.induct with
  | case1 => simp [pieces_nil]
  | case2 input hne ih =>
    rw [pieces_of_ne_nil hne, List.flatten_cons, List.mem_append, not_or]
    exact ⟨Bytes.zero_notMem_cstring _ _, ih⟩

/-- An input without zero bytes is sent as it is. -/
theorem flatten_pieces (input : List UInt8) (h : 0 ∉ input) : (pieces input).flatten = input := by
  induction input using pieces.induct with
  | case1 => simp [pieces_nil]
  | case2 input hne ih =>
    have hsplit : line input ++ input.drop (line input).length = input := cut_append_drop _ _
    have hline : 0 ∉ line input := by
      intro hmem
      rw [← hsplit] at h
      exact h (List.mem_append_left _ hmem)
    have hsend : sendline input = line input := by
      rw [sendline, cstring, List.drop_zero]
      refine List.takeWhile_eq_self_iff.mpr fun x hx => decide_eq_true ?_
      rintro rfl
      exact hline hx
    rw [pieces_of_ne_nil hne, List.flatten_cons, ih fun hmem => h (List.mem_of_mem_drop hmem),
      hsend, hsplit]

/-- Nothing behind a complete part is sent for the same line. -/
theorem eq_nil_of_complete {input q r : List UInt8} (h : sendline input = q ++ r)
    (hq : Complete q) : r = [] := by
  have hpre : q ++ r <+: line input := h ▸ sendline_isPrefix input
  have hlen := hpre.length_le
  rw [List.length_append] at hlen
  have hle : (line input).length ≤ maxLine - 1 := length_cut_le _ _
  refine List.eq_nil_of_length_eq_zero ?_
  rcases hq with hlast | hfull
  · -- the newline at the end of `q` is the first one
    obtain ⟨q, rfl⟩ := List.getLast?_eq_some_iff.mp hlast
    have hinput : q ++ newline :: r <+: input := by
      refine (List.IsPrefix.trans ?_ hpre).trans ?_
      · simp
      · rw [line, cut_fst]
        exact List.take_prefix _ _
    obtain ⟨t, rfl⟩ := hinput
    have hidx : (q ++ newline :: r ++ t).findIdx isNewline ≤ q.length := by
      refine Nat.le_of_not_lt fun hlt => ?_
      have hnot := List.not_of_lt_findIdx hlt
      simp [isNewline] at hnot
    rw [line, cut_fst, List.length_take] at hlen
    rw [List.length_append, List.length_singleton] at hlen
    omega
  · omega

/-! ### The system -/

/-- What the client is doing. -/
inductive Phase where
  /-- About to read a line from standard input. -/
  | idle
  /-- Sending a line, of which these bytes are left. -/
  | send (left : List UInt8)
  /-- Waiting for the line, of which it has these bytes. -/
  | recv (g : List UInt8)
  /-- About to write the line to standard output. -/
  | shows (g : List UInt8)
  | done
  | dead
  deriving DecidableEq, Repr

/-- What the server is doing. -/
inductive Serve where
  | read
  | writen (left : List UInt8)
  | done
  | dead
  deriving DecidableEq, Repr

/-- The system. -/
structure State where
  phase : Phase
  input : List UInt8
  output : List UInt8
  /-- On the way back to the client. -/
  back : List UInt8
  srv : Serve
  /-- On the way to the server. -/
  up : List UInt8

def Phase.got : Phase → List UInt8
  | recv g | shows g => g
  | _ => []

def Phase.left : Phase → List UInt8
  | send left => left
  | _ => []

def Serve.left : Serve → List UInt8
  | writen left => left
  | _ => []

def Serve.gone : Serve → Bool
  | done | dead => true
  | _ => false

/-- All of the line has been sent, or some of it is left. -/
def sending (left : List UInt8) : Phase := if left = [] then .recv [] else .send left

/-- The line is there, or some of it is missing. -/
def receiving (g : List UInt8) : Phase := if Complete g then .shows g else .recv g

def serving (left : List UInt8) : Serve := if left = [] then .read else .writen left

/-- The bytes of the line that is under way. -/
def State.inFlight (s : State) : List UInt8 :=
  s.phase.got ++ (s.back ++ (s.srv.left ++ (s.up ++ s.phase.left)))

/-- What happens when nothing fails. -/
inductive Works : State → State → Prop where
  | eof {s} : s.phase = .idle → s.input = [] → Works s { s with phase := .done }
  | line {s} : s.phase = .idle → s.input ≠ [] →
      Works s { s with
        phase := sending (sendline s.input), input := s.input.drop (line s.input).length }
  | write {s left} (k : ℕ) : s.phase = .send left → 0 < k → k ≤ left.length →
      Works s { s with phase := sending (left.drop k), up := s.up ++ left.take k }
  | byte {s g c b} : s.phase = .recv g → s.back = c :: b →
      Works s { s with phase := receiving (g ++ [c]), back := b }
  | shows {s g} : s.phase = .shows g → Works s { s with phase := .idle, output := s.output ++ g }
  | srvRead {s} (k : ℕ) : s.srv = .read → 0 < k → k ≤ s.up.length →
      Works s { s with srv := .writen (s.up.take k), up := s.up.drop k }
  | srvWrite {s left} (k : ℕ) : s.srv = .writen left → 0 < k → k ≤ left.length →
      Works s { s with srv := serving (left.drop k), back := s.back ++ left.take k }
  | srvEof {s} : s.srv = .read → s.up = [] → s.phase = .done ∨ s.phase = .dead →
      Works s { s with srv := .done }

/-- The client reads the end of file: `Readline` returns what it has. -/
inductive Hangs : State → State → Prop where
  | quit {s} : s.phase = .recv [] → s.back = [] → s.srv.gone = true →
      Hangs s { s with phase := .dead }
  | part {s g} : s.phase = .recv g → g ≠ [] → s.back = [] → s.srv.gone = true →
      Hangs s { s with phase := .shows g }

/-- One side exits. -/
inductive Fails : State → State → Prop where
  | cli {s} : Fails s { s with phase := .dead }
  | srv {s} : Fails s { s with srv := .dead }

section Fields

variable (l : List UInt8)

-- one equation for each kind of phase: of any other phase the definitions stay folded
attribute [simp] Phase.got.eq_1 Phase.got.eq_2 Phase.got.eq_3 Phase.left.eq_1 Phase.left.eq_2
  Serve.left.eq_1 Serve.left.eq_2 Serve.gone.eq_1 Serve.gone.eq_2 Serve.gone.eq_3

@[simp] theorem take_append_drop_append (k : ℕ) (r : List UInt8) :
    l.take k ++ (l.drop k ++ r) = l ++ r := by
  rw [← List.append_assoc, List.take_append_drop]

@[simp] theorem got_sending : (sending l).got = [] := by
  unfold sending
  split <;> rfl

@[simp] theorem left_sending : (sending l).left = l := by
  unfold sending
  split
  · next h => exact h.symm
  · rfl

@[simp] theorem sending_ne_dead : sending l ≠ .dead := by
  unfold sending
  split <;> nofun

@[simp] theorem got_receiving : (receiving l).got = l := by
  unfold receiving
  split <;> rfl

@[simp] theorem left_receiving : (receiving l).left = [] := by
  unfold receiving
  split <;> rfl

@[simp] theorem receiving_ne_dead : receiving l ≠ .dead := by
  unfold receiving
  split <;> nofun

@[simp] theorem left_serving : (serving l).left = l := by
  unfold serving
  split
  · next h => exact h.symm
  · rfl

@[simp] theorem gone_serving : (serving l).gone = false := by
  unfold serving
  split <;> rfl

end Fields

/-! ### No byte is lost, doubled or overtaken -/

/-- Where the bytes of the input are, as long as the client is there. -/
structure Flow (input : List UInt8) (s : State) : Prop where
  out : s.output <+: (pieces input).flatten
  /-- All of them, as long as the server is there as well. -/
  whole : s.phase ≠ .dead → s.srv.gone = false →
    s.output ++ (s.inFlight ++ (pieces s.input).flatten) = (pieces input).flatten
  /-- What has come back is the first part of them. -/
  lost : s.phase ≠ .dead → s.srv.gone = true →
    s.output ++ (s.phase.got ++ s.back) <+: (pieces input).flatten

section FlowSteps

variable {input : List UInt8} {s s' : State}

/-- What is shown is the first part. -/
theorem flow_of_whole_lost
    (whole : s.srv.gone = false →
      s.output ++ (s.inFlight ++ (pieces s.input).flatten) = (pieces input).flatten)
    (lost : s.srv.gone = true → s.output ++ (s.phase.got ++ s.back) <+: (pieces input).flatten) :
    Flow input s := by
  refine ⟨?_, fun _ => whole, fun _ => lost⟩
  cases hsrv : s.srv.gone with
  | true => exact (List.prefix_append _ _).trans (lost hsrv)
  | false => exact ⟨_, whole hsrv⟩

theorem flow_of_dead (hphase : s.phase = .dead) (hout : s.output <+: (pieces input).flatten) :
    Flow input s :=
  ⟨hout, fun h => absurd hphase h, fun h => absurd hphase h⟩

theorem Flow.works (h : Flow input s) (hs : Works s s') : Flow input s' := by
  by_cases hdead : s.phase = .dead
  · -- the server alone is still there, and shows nothing
    cases hs with
    | srvRead k hsrv hpos hle => exact flow_of_dead hdead h.out
    | srvWrite k hsrv hpos hle => exact flow_of_dead hdead h.out
    | srvEof hsrv hup _ => exact flow_of_dead hdead h.out
    | _ => simp_all
  have whole := h.whole hdead
  have lost := h.lost hdead
  simp only [State.inFlight] at whole
  cases hs with
  | eof hphase hinput =>
    refine flow_of_whole_lost (fun hsrv => ?_) fun hsrv => ?_
    · simpa [State.inFlight, hphase] using whole hsrv
    · simpa [hphase] using lost hsrv
  | line hphase hinput =>
    refine flow_of_whole_lost (fun hsrv => ?_) fun hsrv => ?_
    · simpa [State.inFlight, hphase, pieces_of_ne_nil hinput] using whole hsrv
    · simpa [hphase] using lost hsrv
  | write k hphase hpos hle =>
    refine flow_of_whole_lost (fun hsrv => ?_) fun hsrv => ?_
    · simpa [State.inFlight, hphase] using whole hsrv
    · simpa [hphase] using lost hsrv
  | byte hphase hback =>
    refine flow_of_whole_lost (fun hsrv => ?_) fun hsrv => ?_
    · simpa [State.inFlight, hphase, hback] using whole hsrv
    · simpa [hphase, hback] using lost hsrv
  | shows hphase =>
    refine flow_of_whole_lost (fun hsrv => ?_) fun hsrv => ?_
    · simpa [State.inFlight, hphase] using whole hsrv
    · simpa [hphase] using lost hsrv
  | srvRead k hsrv hpos hle =>
    refine flow_of_whole_lost (fun _ => ?_) fun hgone => absurd hgone (by simp)
    simpa [State.inFlight, hsrv] using whole (by rw [hsrv]; rfl)
  | srvWrite k hsrv hpos hle =>
    refine flow_of_whole_lost (fun _ => ?_) fun hgone => absurd hgone (by simp)
    simpa [State.inFlight, hsrv] using whole (by rw [hsrv]; rfl)
  | srvEof hsrv hup hphase =>
    refine flow_of_whole_lost nofun fun _ => ?_
    rw [← whole (by rw [hsrv]; rfl)]
    simp

/-- At the end of file what has come back is shown. -/
theorem Flow.hangs (h : Flow input s) (hs : Hangs s s') : Flow input s' := by
  cases hs with
  | quit hphase hback hsrv => exact flow_of_dead rfl h.out
  | part hphase hne hback hsrv =>
    refine flow_of_whole_lost (fun hthere => ?_) fun _ => ?_
    · rw [hsrv] at hthere
      cases hthere
    · simpa [hphase] using h.lost (by rw [hphase]; nofun) hsrv

theorem Flow.fails (h : Flow input s) (hs : Fails s s') : Flow input s' := by
  cases hs with
  | cli => exact flow_of_dead rfl h.out
  | srv =>
    by_cases hdead : s.phase = .dead
    · exact flow_of_dead hdead h.out
    refine flow_of_whole_lost nofun fun _ => ?_
    cases hsrv : s.srv.gone with
    | true => exact h.lost hdead hsrv
    | false =>
      rw [← h.whole hdead hsrv, State.inFlight]
      simp

/-- What has come back, and not been shown, has no zero byte in it. -/
theorem Flow.zero_notMem (h : Flow input s) (hphase : s.phase ≠ .dead) :
    0 ∉ s.phase.got ++ s.back := by
  have htext := zero_notMem_pieces input
  intro hmem
  cases hsrv : s.srv.gone with
  | true =>
    obtain ⟨t, ht⟩ := h.lost hphase hsrv
    rw [← ht] at htext
    exact htext (List.mem_append_left _ (List.mem_append_right _ hmem))
  | false =>
    rw [← h.whole hphase hsrv, State.inFlight, ← List.append_assoc s.phase.got] at htext
    exact htext (List.mem_append_right _ (List.mem_append_left _ (List.mem_append_left _ hmem)))

end FlowSteps

/-! ### One line under way -/

/-- There is a line under way. -/
def Phase.busy : Phase → Bool
  | send _ | recv _ | shows _ => true
  | _ => false

/-- The line that is under way, if there is one. -/
def State.current (s : State) : List (List UInt8) := if s.phase.busy then [s.inFlight] else []

/-- The lines that have come back are complete, and there is one under way at most. -/
structure Turn (input : List UInt8) (s : State) : Prop where
  lines : ∃ shown : List (List UInt8), (∀ p ∈ shown, Complete p) ∧ s.output = shown.flatten ∧
    pieces input = shown ++ (s.current ++ pieces s.input)
  alive : s.phase ≠ .dead
  served : s.srv ≠ .dead
  gone : s.srv.gone = true → s.phase = .done
  quiet : s.phase.busy = false → s.inFlight = []
  ended : s.phase = .done → s.input = []
  send : ∀ l, s.phase = .send l → l ≠ []
  recv : ∀ g, s.phase = .recv g → ¬Complete g
  shows : ∀ g, s.phase = .shows g → Complete g ∧ s.inFlight = g
  writen : ∀ l, s.srv = .writen l → l ≠ []

section TurnSteps

variable {input : List UInt8} {s s' : State} {l g : List UInt8}

@[simp] theorem busy_sending : (sending l).busy = true := by
  unfold sending
  split <;> rfl

@[simp] theorem busy_receiving : (receiving l).busy = true := by
  unfold receiving
  split <;> rfl

theorem ne_nil_of_sending (h : sending l = .send g) : g ≠ [] := by
  unfold sending at h
  split at h
  · cases h
  · next hne =>
    obtain rfl := Phase.send.inj h
    exact hne

theorem not_complete_of_sending (h : sending l = .recv g) : ¬Complete g := by
  unfold sending at h
  split at h
  · obtain rfl := Phase.recv.inj h
    decide
  · cases h

theorem sending_ne_shows : sending l ≠ .shows g := by
  unfold sending
  split <;> nofun

theorem not_complete_of_receiving (h : receiving l = .recv g) : ¬Complete g := by
  unfold receiving at h
  split at h
  · cases h
  · next hnot =>
    obtain rfl := Phase.recv.inj h
    exact hnot

theorem eq_of_receiving (h : receiving l = .shows g) : Complete g ∧ l = g := by
  unfold receiving at h
  split at h
  · next hc =>
    obtain rfl := Phase.shows.inj h
    exact ⟨hc, rfl⟩
  · cases h

theorem receiving_ne_send : receiving l ≠ .send g := by
  unfold receiving
  split <;> nofun

theorem serving_ne_dead : serving l ≠ .dead := by
  unfold serving
  split <;> nofun

theorem ne_nil_of_serving (h : serving l = .writen g) : g ≠ [] := by
  unfold serving at h
  split at h
  · cases h
  · next hne =>
    obtain rfl := Serve.writen.inj h
    exact hne

/-- Nothing is behind a complete part of one of the pieces. -/
theorem eq_nil_of_mem_pieces (input : List UInt8) {p q r : List UInt8} (hp : p ∈ pieces input)
    (h : p = q ++ r) (hq : Complete q) : r = [] := by
  induction input using pieces.induct with
  | case1 => simp [pieces_nil] at hp
  | case2 input hne ih =>
    rw [pieces_of_ne_nil hne] at hp
    rcases List.mem_cons.mp hp with rfl | hp
    · exact eq_nil_of_complete h hq
    · exact ih hp

theorem Turn.init (input : List UInt8) : Turn input ⟨.idle, input, [], [], .read, []⟩ where
  lines := ⟨[], nofun, rfl, rfl⟩
  alive := nofun
  served := nofun
  gone := nofun
  quiet := fun _ => rfl
  ended := nofun
  send := nofun
  recv := nofun
  shows := nofun
  writen := nofun

/-- The server moves bytes of the line. -/
theorem Turn.serves (h : Turn input s) {srv : Serve} {back up : List UInt8}
    (hflight : { s with srv, back, up }.inFlight = s.inFlight)
    (hserved : srv ≠ .dead) (hgone : srv.gone = true → s.phase = .done)
    (hleft : ∀ l, srv = .writen l → l ≠ []) :
    Turn input { s with srv, back, up } where
  lines := by
    simp only [State.current, hflight]
    exact h.lines
  alive := h.alive
  served := hserved
  gone := hgone
  quiet := fun hbusy => hflight.trans (h.quiet hbusy)
  ended := h.ended
  send := h.send
  recv := h.recv
  shows := fun g hg => ⟨(h.shows g hg).1, hflight.trans (h.shows g hg).2⟩
  writen := hleft

/-- The current line is one of the pieces. -/
theorem Turn.mem_pieces (h : Turn input s) (hbusy : s.phase.busy = true) :
    s.inFlight ∈ pieces input := by
  obtain ⟨shown, -, -, hpieces⟩ := h.lines
  rw [hpieces, State.current, if_pos hbusy]
  simp

/-- A line is under way. -/
theorem turn_of_busy {shown : List (List UInt8)} (hcomplete : ∀ p ∈ shown, Complete p)
    (hout : s.output = shown.flatten)
    (hpieces : pieces input = shown ++ s.inFlight :: pieces s.input) (hsrv : s.srv.gone = false)
    (hbusy : s.phase.busy = true) (send : ∀ l, s.phase = .send l → l ≠ [])
    (recv : ∀ g, s.phase = .recv g → ¬Complete g)
    (shows : ∀ g, s.phase = .shows g → Complete g ∧ s.inFlight = g)
    (writen : ∀ l, s.srv = .writen l → l ≠ []) : Turn input s where
  lines := ⟨shown, hcomplete, hout, by rw [State.current, if_pos hbusy]; exact hpieces⟩
  alive := by
    intro hdead
    rw [hdead] at hbusy
    cases hbusy
  served := by
    intro hdead
    rw [hdead] at hsrv
    cases hsrv
  gone := by
    rw [hsrv]
    nofun
  quiet := by
    intro hquiet
    rw [hbusy] at hquiet
    cases hquiet
  ended := by
    intro hdone
    rw [hdone] at hbusy
    cases hbusy
  send := send
  recv := recv
  shows := shows
  writen := writen

/-- The server is there until the client is done. -/
theorem Turn.gone_eq_false (h : Turn input s) (hphase : s.phase ≠ .done) :
    s.srv.gone = false := by
  by_contra hgone
  exact hphase (h.gone (by simpa using hgone))

/-- **One step.** -/
theorem Turn.works (h : Turn input s) (hs : Works s s') : Turn input s' := by
  obtain ⟨shown, hcomplete, hout, hpieces⟩ := h.lines
  cases hs with
  | eof hphase hinput =>
    have hquiet := h.quiet (by rw [hphase]; rfl)
    simp only [State.inFlight, hphase] at hquiet
    simp only [State.current, hphase] at hpieces
    exact ⟨⟨shown, hcomplete, hout, hpieces⟩, nofun, h.served, fun _ => rfl, fun _ => hquiet,
      fun _ => hinput, nofun, nofun, nofun, h.writen⟩
  | line hphase hinput =>
    have hquiet := h.quiet (by rw [hphase]; rfl)
    simp only [State.inFlight, hphase, Phase.got, Phase.left, List.append_eq_nil_iff] at hquiet
    obtain ⟨-, hback, hsrv, hup, -⟩ := hquiet
    rw [State.current, hphase, if_neg (by decide), pieces_of_ne_nil hinput] at hpieces
    refine turn_of_busy hcomplete hout ?_ (h.gone_eq_false (by rw [hphase]; nofun)) busy_sending
      (fun l hl => ne_nil_of_sending hl) (fun g hg => not_complete_of_sending hg)
      (fun g hg => absurd hg sending_ne_shows) h.writen
    simpa [State.inFlight, hback, hsrv, hup] using hpieces
  | write k hphase hpos hle =>
    rw [State.current, hphase, if_pos (by rfl)] at hpieces
    refine turn_of_busy hcomplete hout ?_ (h.gone_eq_false (by rw [hphase]; nofun)) busy_sending
      (fun l hl => ne_nil_of_sending hl) (fun g hg => not_complete_of_sending hg)
      (fun g hg => absurd hg sending_ne_shows) h.writen
    simpa [State.inFlight, hphase] using hpieces
  | @byte g c b hphase hback =>
    have hmem := h.mem_pieces (by rw [hphase]; rfl)
    rw [State.current, hphase, if_pos (by rfl)] at hpieces
    have hsplit : s.inFlight = (g ++ [c]) ++ (b ++ (s.srv.left ++ (s.up ++ []))) := by
      simp [State.inFlight, hphase, hback]
    refine turn_of_busy hcomplete hout ?_ (h.gone_eq_false (by rw [hphase]; nofun)) busy_receiving
      (fun l hl => absurd hl receiving_ne_send) (fun g hg => not_complete_of_receiving hg) ?_
      h.writen
    · simpa [State.inFlight, hphase, hback] using hpieces
    · -- there is nothing behind the end of the line
      intro g' hg'
      obtain ⟨hline, rfl⟩ := eq_of_receiving hg'
      have hrest := eq_nil_of_mem_pieces input hmem hsplit hline
      refine ⟨hline, ?_⟩
      rw [State.inFlight, got_receiving, left_receiving, hrest, List.append_nil]
  | @shows g hphase =>
    obtain ⟨hline, hflight⟩ := h.shows g hphase
    rw [State.current, hphase, if_pos (by rfl), hflight] at hpieces
    refine ⟨⟨shown ++ [g], ?_, ?_, ?_⟩, nofun, h.served, fun hgone => ?_, fun _ => ?_, nofun,
      nofun, nofun, nofun, h.writen⟩
    · intro p hp
      rcases List.mem_append.mp hp with hp | hp
      · exact hcomplete p hp
      · exact List.mem_singleton.mp hp ▸ hline
    · simp [hout]
    · rw [hpieces, List.append_assoc]
      rfl
    · rw [h.gone_eq_false (by rw [hphase]; nofun)] at hgone
      cases hgone
    · have hnil : g ++ (s.back ++ (s.srv.left ++ (s.up ++ []))) = g ++ [] := by
        rw [List.append_nil g]
        simpa [State.inFlight, hphase] using hflight
      exact List.append_cancel_left hnil
  | srvRead k hsrv hpos hle =>
    refine h.serves ?_ nofun nofun fun l hl => ?_
    · simp [State.inFlight, hsrv]
    · obtain rfl := Serve.writen.inj hl
      intro hnil
      have := congrArg List.length hnil
      rw [List.length_take, List.length_nil] at this
      omega
  | srvWrite k hsrv hpos hle =>
    refine h.serves ?_ serving_ne_dead (fun hgone => absurd hgone (by simp))
      fun l hl => ne_nil_of_serving hl
    simp [State.inFlight, hsrv]
  | srvEof hsrv hup hphase =>
    refine h.serves ?_ nofun (fun _ => ?_) nofun
    · simp [State.inFlight, hsrv]
    · rcases hphase with hphase | hphase
      · exact hphase
      · exact absurd hphase h.alive

/-- The client does not read an end of file while it waits. -/
theorem Turn.not_hangs (h : Turn input s) : ¬Hangs s s' := by
  intro hs
  cases hs with
  | quit hphase hback hsrv | part hphase hne hback hsrv =>
    rw [h.gone_eq_false (by rw [hphase]; nofun)] at hsrv
    cases hsrv

end TurnSteps

/-! ### How far it goes -/

def Phase.steps : Phase → ℕ
  | send _ | recv _ | shows _ => 2
  | idle => 1
  | _ => 0

def Serve.steps : Serve → ℕ
  | done | dead => 0
  | _ => 1

attribute [simp] Phase.steps.eq_1 Phase.steps.eq_2 Phase.steps.eq_3 Phase.steps.eq_4
  Phase.steps.eq_5 Serve.steps.eq_1 Serve.steps.eq_2 Serve.steps.eq_3

/-- A bound for the steps to come: each byte of the input takes seven at most. -/
def State.measure (s : State) : ℕ :=
  7 * s.input.length + 5 * s.phase.left.length + 4 * s.up.length + 3 * s.srv.left.length +
    2 * s.back.length + s.phase.steps + s.srv.steps

section Measure

variable {s s' : State}

@[simp] theorem steps_sending (l : List UInt8) : (sending l).steps = 2 := by
  unfold sending
  split <;> rfl

@[simp] theorem steps_receiving (l : List UInt8) : (receiving l).steps = 2 := by
  unfold receiving
  split <;> rfl

@[simp] theorem steps_serving (l : List UInt8) : (serving l).steps = 1 := by
  unfold serving
  split <;> rfl

theorem works_lt (hs : Works s s') : s'.measure < s.measure := by
  cases hs with
  | eof hphase hinput => simp [State.measure, hphase]
  | line hphase hinput =>
    have hpos := List.length_pos_of_ne_nil (line_ne_nil hinput)
    have hline : (line s.input).length ≤ s.input.length := by
      rw [line, cut_fst]
      exact List.length_take_le' _ _
    have hsend := (sendline_isPrefix s.input).length_le
    simp [State.measure, hphase]
    omega
  | write k hphase hpos hle =>
    simp [State.measure, hphase]
    omega
  | byte hphase hback => simp [State.measure, hphase, hback]
  | shows hphase => simp [State.measure, hphase]
  | srvRead k hsrv hpos hle =>
    simp [State.measure, hsrv]
    omega
  | srvWrite k hsrv hpos hle =>
    simp [State.measure, hsrv]
    omega
  | srvEof hsrv hup hphase => simp [State.measure, hsrv]

end Measure

/-! ### Where it stops -/

/-- All the lines have come back, and both sides are done. -/
structure Finished (input : List UInt8) (s : State) : Prop where
  phase_eq : s.phase = .done
  srv_eq : s.srv = .done
  output_eq : s.output = (pieces input).flatten

/-- The client waits for the rest of a line that is not complete, and the server for another one. -/
structure Waits (input : List UInt8) (s : State) : Prop where
  phase_eq : ∃ g, s.phase = .recv g
  srv_eq : s.srv = .read
  queues : s.back = [] ∧ s.up = []
  lines : ∃ shown p rest, pieces input = shown ++ p :: rest ∧ (∀ q ∈ shown, Complete q) ∧
    ¬Complete p ∧ s.output = shown.flatten

theorem Turn.stuck {input : List UInt8} {s : State} (h : Turn input s)
    (hstuck : ∀ s', ¬Works s s') : Finished input s ∨ Waits input s := by
  obtain ⟨shown, hcomplete, hout, hpieces⟩ := h.lines
  -- the server has nothing to write
  have hsrv : s.srv = .read ∨ s.srv = .done := by
    cases hsrv : s.srv with
    | read => exact .inl rfl
    | done => exact .inr rfl
    | dead => exact absurd hsrv h.served
    | writen l =>
      have hne := List.length_pos_of_ne_nil (h.writen l hsrv)
      exact absurd (.srvWrite 1 hsrv Nat.one_pos hne) (hstuck _)
  -- and nothing to read
  have hup : s.srv = .read → s.up = [] := by
    intro hread
    by_contra hne
    exact hstuck _ (.srvRead 1 hread Nat.one_pos (List.length_pos_of_ne_nil hne))
  cases hphase : s.phase with
  | idle =>
    by_cases hinput : s.input = []
    · exact absurd (.eof hphase hinput) (hstuck _)
    · exact absurd (.line hphase hinput) (hstuck _)
  | send l =>
    have hne := List.length_pos_of_ne_nil (h.send l hphase)
    exact absurd (.write 1 hphase Nat.one_pos hne) (hstuck _)
  | shows g => exact absurd (.shows hphase) (hstuck _)
  | dead => exact absurd hphase h.alive
  | done =>
    left
    rcases hsrv with hread | hgone
    · exact absurd (.srvEof hread (hup hread) (.inl hphase)) (hstuck _)
    · refine ⟨hphase, hgone, ?_⟩
      rw [hpieces, State.current, hphase, if_neg (by decide), h.ended hphase, pieces_nil, hout]
      simp
  | recv g =>
    right
    have hread : s.srv = .read := by
      refine hsrv.resolve_right fun hdone => ?_
      have := h.gone (by rw [hdone]; rfl)
      rw [hphase] at this
      cases this
    have hback : s.back = [] := by
      cases hb : s.back with
      | nil => rfl
      | cons c b => exact absurd (.byte hphase hb) (hstuck _)
    refine ⟨⟨g, hphase⟩, hread, ⟨hback, hup hread⟩, shown, g, pieces s.input, ?_, hcomplete,
      h.recv g hphase, hout⟩
    rw [hpieces, State.current, hphase, if_pos (by rfl)]
    simp [State.inFlight, hphase, hback, hread, hup hread]

end TcpIp.Echo
