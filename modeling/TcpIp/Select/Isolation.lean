import TcpIp.Select.Server

/-!
# Isolation of the connections

What the server writes to a client should be what that client sent.  The static
buffer of `readline` knows nothing of descriptors: bytes left in it by one
connection are handed to whichever connection is read next.  The connections are
isolated in the runs in which that does not happen, as long as the clients'
lines are short enough for `line`; a longer line is cut, and the terminating zero
is written along with the piece.

The proof keeps account of every byte a client sent: it has been echoed, or it is
in `line`, in the static buffer, or in the connection's receive queue.

## Main definitions

* `Isolated` — the property.
* `Careful` — the condition on the steps of a run.
* `Balanced`, `Live` — the account, and the invariant of the running server.

## Main results

* `isolated_of_careful` — the property holds in every careful run.
* `line_echoed_to_wrong_client` — a run that sends one client's line to another.
-/

namespace TcpIp
namespace Select

open Run Readline

/-- What was written to a client is an initial part of what it sent, and each byte
of it was read from the client's own connection. -/
def Isolated (s : Sys) : Prop :=
  ∀ c, (s.conns c).echoed <+: (s.conns c).sent ∧ ∀ o ∈ (s.conns c).origins, o = some c

/-- Every stretch of `MAXLINE - 1` bytes contains a newline. -/
def LinesFit (bs : List UInt8) : Prop :=
  ∀ i < bs.length, i + (maxLine - 1) ≤ bs.length →
    ∃ b ∈ (bs.drop i).take (maxLine - 1), isNewline b = true

instance (bs : List UInt8) : Decidable (LinesFit bs) := by
  unfold LinesFit
  infer_instance

/-- The static buffer holds nothing, or bytes of the connection of `sockfd`. -/
def Sys.OwnBuffer (s : Sys) (sockfd : Fd) : Prop :=
  s.rl.unread = [] ∨ (s.owner.isSome ∧ s.owner = s.fds sockfd)

instance (s : Sys) (sockfd : Fd) : Decidable (s.OwnBuffer sockfd) := by
  unfold Sys.OwnBuffer
  infer_instance

/-- The clients' lines fit, and when the server calls `Readline` the static buffer
holds no bytes of another connection. -/
def Careful (s : Sys) : Act → Prop
  | .send c bs => LinesFit ((s.conns c).sent ++ bs)
  | .tick =>
    match s.pc with
    | .scan i => ∀ sockfd ∈ s.client.getD i none, sockfd ∈ s.rset → s.OwnBuffer sockfd
    | _ => True
  | _ => True

instance (s : Sys) (a : Act) : Decidable (Careful s a) := by
  unfold Careful
  split
  · infer_instance
  · split <;> infer_instance
  · infer_instance

/-! ### The account of the bytes -/

/-- Bytes that belong to one connection, as seen from `c`. -/
def share (o : Option ConnId) (bs : List UInt8) (c : ConnId) : List UInt8 :=
  if o = some c then bs else []

@[simp] theorem share_nil (o : Option ConnId) (c : ConnId) : share o [] c = [] := by
  simp [share]

@[simp] theorem share_self (c : ConnId) (bs : List UInt8) : share (some c) bs c = bs := by
  simp [share]

theorem share_of_ne {c d : ConnId} (h : d ≠ c) (bs : List UInt8) : share (some c) bs d = [] := by
  simp [share, Ne.symm h]

/-- Every byte a client sent has been echoed, is in flight to the connection `cur`,
is in the static buffer, or is queued. -/
def Balanced (conns : ConnId → Conn) (cur : Option ConnId) (flight : List UInt8)
    (owner : Option ConnId) (unread : List UInt8) : Prop :=
  ∀ c, (conns c).echoed ++ share cur flight c ++ share owner unread c ++ (conns c).rcvq
    = (conns c).sent

section Balanced

variable {conns : ConnId → Conn} {cur cur' owner : Option ConnId} {flight unread : List UInt8}
  {c : ConnId}

/-- With nothing in flight it does not matter whom it would be for. -/
theorem Balanced.retarget (h : Balanced conns cur [] owner unread) :
    Balanced conns cur' [] owner unread := by
  intro d
  rw [share_nil]
  have hd := h d
  rw [share_nil] at hd
  exact hd

/-- One connection changes and its account still balances. -/
theorem Balanced.update (h : Balanced conns cur flight owner unread) {conn : Conn}
    {flight' unread' : List UInt8} {owner' : Option ConnId}
    (hc : conn.echoed ++ share cur flight' c ++ share owner' unread' c ++ conn.rcvq = conn.sent)
    (hflight : ∀ d, d ≠ c → share cur flight' d = share cur flight d)
    (hunread : ∀ d, d ≠ c → share owner' unread' d = share owner unread d) :
    Balanced (Function.update conns c conn) cur flight' owner' unread' := by
  intro d
  by_cases hd : d = c
  · subst hd
    rw [Function.update_self]
    exact hc
  · rw [Function.update_of_ne hd, hflight d hd, hunread d hd]
    exact h d

/-- A client sends. -/
theorem Balanced.send (h : Balanced conns cur flight owner unread) (bs : List UInt8) :
    Balanced (Function.update conns c
        { conns c with rcvq := (conns c).rcvq ++ bs, sent := (conns c).sent ++ bs })
      cur flight owner unread := by
  refine h.update ?_ (fun _ _ => rfl) (fun _ _ => rfl)
  simp only [← List.append_assoc, h c]

/-- A connection changes in other ways only. -/
theorem Balanced.other (h : Balanced conns cur flight owner unread) {conn : Conn}
    (hechoed : conn.echoed = (conns c).echoed) (hrcvq : conn.rcvq = (conns c).rcvq)
    (hsent : conn.sent = (conns c).sent) :
    Balanced (Function.update conns c conn) cur flight owner unread := by
  refine h.update ?_ (fun _ _ => rfl) (fun _ _ => rfl)
  rw [hechoed, hrcvq, hsent]
  exact h c

/-- A byte goes from the static buffer to `line`. -/
theorem Balanced.next {b : UInt8} (h : Balanced conns (some c) flight (some c) (b :: unread)) :
    Balanced conns (some c) (flight ++ [b]) (some c) unread := by
  intro d
  have hd := h d
  by_cases hdc : d = c
  · subst hdc
    simpa using hd
  · rw [share_of_ne hdc, share_of_ne hdc] at hd ⊢
    exact hd

/-- The static buffer is filled from the queue of the connection. -/
theorem Balanced.fill (h : Balanced conns (some c) flight owner []) (k : ℕ) :
    Balanced (Function.update conns c { conns c with rcvq := (conns c).rcvq.drop k })
      (some c) flight (some c) ((conns c).rcvq.take k) := by
  refine h.update ?_ (fun _ _ => rfl) ?_
  · have hc := h c
    rw [share_nil, List.append_nil] at hc
    simp only [share_self, List.append_assoc, List.take_append_drop] at hc ⊢
    exact hc
  · intro d hd
    rw [share_of_ne hd, share_nil]

/-- Bytes in flight are written. -/
theorem Balanced.write {w : List UInt8} {origins : List (Option ConnId)}
    (h : Balanced conns (some c) (w ++ flight) owner unread) :
    Balanced (Function.update conns c
        { conns c with echoed := (conns c).echoed ++ w, origins := origins })
      (some c) flight owner unread := by
  refine h.update ?_ ?_ (fun _ _ => rfl)
  · have hc := h c
    simp only [share_self, ← List.append_assoc] at hc ⊢
    exact hc
  · intro d hd
    rw [share_of_ne hd, share_of_ne hd]

/-- Bytes in flight that have no newline are less than `MAXLINE - 1`. -/
theorem Balanced.flight_short (h : Balanced conns (some c) flight owner unread)
    (hfit : LinesFit (conns c).sent) (hno : ∀ b ∈ flight, isNewline b = false) :
    flight.length ≠ maxLine - 1 := by
  intro hlen
  have hc := h c
  rw [share_self, List.append_assoc, List.append_assoc] at hc
  have hpos : 0 < maxLine - 1 := by decide
  rw [← hc] at hfit
  obtain ⟨b, hb, hnl⟩ := hfit (conns c).echoed.length
    (by simp only [List.length_append]; omega) (by simp only [List.length_append]; omega)
  rw [List.drop_left, ← hlen, List.take_left] at hb
  rw [hno b hb] at hnl
  cases hnl

end Balanced

/-! ### The invariant -/

/-- The connection the server is about to read a byte from or to write to. -/
def Sys.cur (s : Sys) : Option ConnId :=
  match s.pc with
  | .reading _ sockfd _ _ => s.fds sockfd
  | .writing _ sockfd _ _ => s.fds sockfd
  | _ => none

/-- The bytes of `line` on their way. -/
def Sys.flight (s : Sys) : List UInt8 :=
  match s.pc with
  | .reading _ _ _ ptr => s.line.take ptr
  | .writing _ _ ptr nleft => (s.line.drop ptr).take nleft
  | _ => []

/-- In the loop of `readline`: `line` holds the first bytes of a line, all of them
read from the connection `o`. -/
structure Reading (line : List UInt8) (origin : ℕ → Option ConnId) (o : Option ConnId)
    (n ptr : ℕ) : Prop where
  count : n = ptr + 1
  below : n < maxLine
  noNewline : ∀ b ∈ line.take ptr, isNewline b = false
  origin : ∀ j < ptr, origin j = o

/-- What holds at each point of the program. -/
def AtPc (s : Sys) : Prop :=
  match s.pc with
  | .reading _ sockfd n ptr =>
    Reading s.line s.origin (s.fds sockfd) n ptr ∧ s.OwnBuffer sockfd
  | .writing _ sockfd ptr nleft => ∀ j, ptr ≤ j → j < ptr + nleft → s.origin j = s.fds sockfd
  | _ => True

/-- What holds of the connections at all times. -/
structure Sound (conns : ConnId → Conn) (line : List UInt8) : Prop where
  fits : ∀ c, LinesFit (conns c).sent
  origins : ∀ c, ∀ o ∈ (conns c).origins, o = some c
  room : line.length = maxLine

/-- The state of a server that has not left through an error. -/
structure Live (s : Sys) : Prop where
  balanced : Balanced s.conns s.cur s.flight s.owner s.rl.unread
  sound : Sound s.conns s.line
  atPc : AtPc s

/-- The invariant of careful runs.  An exit loses what is in flight, so the account
is kept for the running server only. -/
inductive Inv (s : Sys) : Prop where
  | live (h : Live s)
  | exited (hpc : s.pc = .exited) (h : Isolated s)

theorem Live.isolated {s : Sys} (h : Live s) : Isolated s := by
  intro c
  refine ⟨?_, h.sound.origins c⟩
  rw [← h.balanced c, List.append_assoc, List.append_assoc]
  exact List.prefix_append _ _

theorem Inv.isolated {s : Sys} (h : Inv s) : Isolated s := by
  cases h with
  | live h => exact h.isolated
  | exited _ h => exact h

theorem Live.exit {s : Sys} (h : Live s) : Inv s.exit := .exited rfl h.isolated

/-- In the loop of `readline`. -/
theorem Live.reading {s : Sys} {i : ℕ} {sockfd : Fd} {n ptr : ℕ} (h : Live s)
    (hpc : s.pc = .reading i sockfd n ptr) :
    Reading s.line s.origin (s.fds sockfd) n ptr ∧ s.OwnBuffer sockfd ∧
      Balanced s.conns (s.fds sockfd) (s.line.take ptr) s.owner s.rl.unread := by
  have hat := h.atPc
  have hbal := h.balanced
  simp only [AtPc, hpc] at hat
  simp only [Sys.cur, Sys.flight, hpc] at hbal
  exact ⟨hat.1, hat.2, hbal⟩

/-- In the loop of `writen`. -/
theorem Live.writing {s : Sys} {i : ℕ} {sockfd : Fd} {ptr nleft : ℕ} (h : Live s)
    (hpc : s.pc = .writing i sockfd ptr nleft) :
    (∀ j, ptr ≤ j → j < ptr + nleft → s.origin j = s.fds sockfd) ∧
      Balanced s.conns (s.fds sockfd) ((s.line.drop ptr).take nleft) s.owner s.rl.unread := by
  have hat := h.atPc
  have hbal := h.balanced
  simp only [AtPc, hpc] at hat
  simp only [Sys.cur, Sys.flight, hpc] at hbal
  exact ⟨hat, hbal⟩

/-- A connection changes, its origins do not, and its lines still fit. -/
theorem Sound.update {conns : ConnId → Conn} {line : List UInt8} (h : Sound conns line)
    {c : ConnId} {conn : Conn} (hsent : LinesFit conn.sent)
    (horigins : ∀ o ∈ conn.origins, o = some c) : Sound (Function.update conns c conn) line where
  fits := by
    intro d
    rcases eq_or_ne d c with rfl | hd
    · rw [Function.update_self]
      exact hsent
    · rw [Function.update_of_ne hd]
      exact h.fits d
  origins := by
    intro d
    rcases eq_or_ne d c with rfl | hd
    · rw [Function.update_self]
      exact horigins
    · rw [Function.update_of_ne hd]
      exact h.origins d
  room := h.room

/-! ### The steps keep it -/

/-- `readline` has returned what is in flight. -/
theorem live_returned {s : Sys} {i : ℕ} {sockfd : Fd} {r : Ret} (hsound : Sound s.conns r.line)
    (hrv : r.rv = r.ptr) (horigin : ∀ j < r.ptr, s.origin j = s.fds sockfd)
    (hbal : Balanced s.conns (s.fds sockfd) r.stored s.owner s.rl.unread) :
    Live (s.returned i sockfd r) := by
  unfold Sys.returned
  rw [if_neg (by omega)]
  split
  · next hzero =>
    have hptr : r.ptr = 0 := by omega
    rw [Ret.stored, hptr, List.take_zero] at hbal
    exact ⟨hbal.retarget, hsound, fun j _ hj => absurd hj (Nat.not_lt_zero j)⟩
  · have htoNat : r.rv.toNat = r.ptr := by omega
    refine ⟨?_, hsound, ?_⟩
    · simpa [Sys.cur, Sys.flight, htoNat, Ret.stored] using hbal
    · intro j _ hj
      simp only [htoNat, Nat.zero_add] at hj
      simp only [Function.update_of_ne (Nat.ne_of_lt hj)]
      exact horigin j hj

theorem origin_store {origin : ℕ → Option ConnId} {o : Option ConnId} {ptr : ℕ}
    (h : ∀ j < ptr, origin j = o) : ∀ j < ptr + 1, Function.update origin ptr o j = o := by
  intro j hj
  rcases eq_or_ne j ptr with rfl | hne
  · rw [Function.update_self]
  · rw [Function.update_of_ne hne]
    exact h j (by omega)

/-- A byte read from the connection itself is added to the line. -/
theorem live_got_byte {s : Sys} {i : ℕ} {sockfd : Fd} {n ptr : ℕ} {b : UInt8} {c : ConnId}
    (hfd : s.fds sockfd = some c) (howner : s.owner = some c) (hsound : Sound s.conns s.line)
    (hread : Reading s.line s.origin (s.fds sockfd) n ptr)
    (hbal : Balanced s.conns (some c) (s.line.take ptr ++ [b]) (some c) s.rl.unread) :
    Live (s.got i sockfd n ptr (.byte b)) := by
  have hptr : ptr < s.line.length := by
    have hcount := hread.count
    have hbelow := hread.below
    rw [hsound.room]
    omega
  have horigin : ∀ j < ptr + 1, Function.update s.origin ptr s.owner j = s.fds sockfd := by
    have ho := origin_store hread.origin
    rw [hfd, ← howner] at ho ⊢
    exact ho
  rw [← take_store hptr] at hbal
  cases hb : isNewline b with
  | true =>
    -- the line is complete
    simp only [Sys.got, body, hb, if_true]
    refine live_returned ⟨hsound.fits, hsound.origins, ?_⟩ ?_ horigin ?_
    · simpa using hsound.room
    · simp [hread.count]
    · simp only [Ret.stored, List.take_set_of_le (Nat.le_refl _), hfd, howner]
      exact hbal
  | false =>
    have hno : ∀ x ∈ (s.line.set ptr b).take (ptr + 1), isNewline x = false := by
      intro x hx
      rw [take_store hptr, List.mem_append, List.mem_singleton] at hx
      rcases hx with hx | rfl
      · exact hread.noNewline x hx
      · exact hb
    have hshort := hbal.flight_short (hsound.fits c) hno
    have hlen : ((s.line.set ptr b).take (ptr + 1)).length = ptr + 1 := by
      rw [List.length_take, List.length_set]
      omega
    have hcount := hread.count
    have hbelow := hread.below
    -- the loop goes on: the lines fit
    simp only [Sys.got, body, hb, Bool.false_eq_true, if_false]
    rw [if_pos (by omega)]
    refine ⟨?_, ⟨hsound.fits, hsound.origins, by simpa using hsound.room⟩, ⟨?_, ?_⟩⟩
    · simpa [Sys.cur, Sys.flight, hfd, howner] using hbal
    · exact ⟨by omega, by omega, hno, horigin⟩
    · exact .inr ⟨by simp [howner], by simp [howner, hfd]⟩

/-- The end of file ends the line. -/
theorem live_got_eof {s : Sys} {i : ℕ} {sockfd : Fd} {n ptr : ℕ} (hsound : Sound s.conns s.line)
    (hread : Reading s.line s.origin (s.fds sockfd) n ptr)
    (hbal : Balanced s.conns (s.fds sockfd) (s.line.take ptr) s.owner s.rl.unread) :
    Live (s.got i sockfd n ptr .eof) := by
  simp only [Sys.got, body, eofCount]
  refine live_returned ⟨hsound.fits, hsound.origins, ?_⟩ ?_ ?_ ?_
  · simpa using hsound.room
  · simp [hread.count]
  · intro j hj
    simp only [Function.update_of_ne (Nat.ne_of_lt hj)]
    exact hread.origin j hj
  · simp only [Ret.stored, List.take_set_of_le (Nat.le_refl _)]
    exact hbal

/-- Nothing is in flight at the other points. -/
def Pc.idle : Pc → Bool
  | .reading _ _ _ _ => false
  | .writing _ _ _ _ => false
  | _ => true

theorem live_of_idle {s : Sys} (hpc : s.pc.idle) (hsound : Sound s.conns s.line)
    (hbal : Balanced s.conns none [] s.owner s.rl.unread) : Live s := by
  cases h : s.pc with
  | reading i sockfd n ptr => simp [h, Pc.idle] at hpc
  | writing i sockfd ptr nleft => simp [h, Pc.idle] at hpc
  | _ => exact ⟨by simpa [Sys.cur, Sys.flight, h] using hbal, hsound, by simp [AtPc, h]⟩

theorem Live.balanced_of_idle {s : Sys} (h : Live s) (hpc : s.pc.idle) :
    Balanced s.conns none [] s.owner s.rl.unread := by
  have hbal := h.balanced
  cases hs : s.pc with
  | reading i sockfd n ptr => simp [hs, Pc.idle] at hpc
  | writing i sockfd ptr nleft => simp [hs, Pc.idle] at hpc
  | _ => simpa [Sys.cur, Sys.flight, hs] using hbal

/-- `Readline` is called: nothing is in flight yet. -/
theorem live_readline {s : Sys} {i : ℕ} {sockfd : Fd} (hsound : Sound s.conns s.line)
    (hbal : Balanced s.conns none [] s.owner s.rl.unread) (hown : s.OwnBuffer sockfd) :
    Live { s with pc := .reading i sockfd 1 0 } := by
  refine ⟨hbal.retarget, hsound, ⟨⟨rfl, by simp [maxLine], ?_, ?_⟩, hown⟩⟩
  · intro b hb
    simp at hb
  · intro j hj
    exact absurd hj (Nat.not_lt_zero j)

/-- The next byte comes from the static buffer, and so from the connection itself. -/
theorem live_buffered {s : Sys} {i : ℕ} {sockfd : Fd} {n ptr : ℕ} {b : UInt8} {rl : Rline}
    (h : Live s) (hpc : s.pc = .reading i sockfd n ptr) (hunread : s.rl.unread = b :: rl.unread) :
    Live ({ s with rl }.got i sockfd n ptr (.byte b)) := by
  obtain ⟨hread, hown, hbal⟩ := h.reading hpc
  rw [hunread] at hbal
  rcases hown with hnil | ⟨hsome, howner⟩
  · rw [hunread] at hnil
    cases hnil
  · obtain ⟨c, hc⟩ := Option.isSome_iff_exists.mp hsome
    rw [← howner, hc] at hbal
    exact live_got_byte (by rw [← howner, hc]) hc h.sound hread hbal.next

theorem live_tick {s s' : Sys} (h : Live s) (hcare : Careful s .tick) (hs : s.tick = some s') :
    Inv s' := by
  unfold Sys.tick at hs
  split at hs
  · next i hpc =>
    have hbal := h.balanced_of_idle (by simp [hpc, Pc.idle])
    simp only [Careful, hpc] at hcare
    split at hs
    · split at hs
      · cases hs
        exact .live (live_of_idle rfl h.sound hbal)
      · next sockfd hclient =>
        split at hs
        · next hset =>
          cases hs
          have hown := hcare sockfd (by rw [hclient]; rfl) hset
          exact .live (live_readline h.sound hbal hown)
        · cases hs
          exact .live (live_of_idle rfl h.sound hbal)
    · cases hs
      exact .live (live_of_idle rfl h.sound hbal)
  · next i sockfd n ptr hpc =>
    split at hs
    · next hcnt =>
      obtain ⟨b, rl, hnext, hunread⟩ := s.rl.next_unread hcnt
      rw [hnext] at hs
      cases hs
      exact .live (live_buffered h hpc hunread)
    · cases hs
  · next i sockfd ptr hpc =>
    cases hs
    obtain ⟨-, hbal⟩ := h.writing hpc
    rw [List.take_zero] at hbal
    refine .live (live_of_idle ?_ h.sound hbal.retarget)
    simp only
    split <;> rfl
  · cases hs

/-- An error ends the process. -/
theorem inv_got_error {s : Sys} {i : ℕ} {sockfd : Fd} {n ptr : ℕ} (h : Isolated s) :
    Inv (s.got i sockfd n ptr .error) :=
  .exited rfl h

/-- Bytes of the connection, or its end of file, arrive in the static buffer. -/
theorem live_filled {s : Sys} {i : ℕ} {sockfd : Fd} {n ptr k : ℕ} {c : ConnId}
    (hfd : s.fds sockfd = some c)
    (hsound : Sound s.conns s.line) (hread : Reading s.line s.origin (s.fds sockfd) n ptr)
    (hbal : Balanced s.conns (some c) (s.line.take ptr) s.owner []) :
    Live (Sys.got
      { s.setConn c { s.conns c with rcvq := (s.conns c).rcvq.drop k } with
        rl := (s.rl.fill (.ok ((s.conns c).rcvq.take k))).2, owner := some c }
      i sockfd n ptr (s.rl.fill (.ok ((s.conns c).rcvq.take k))).1) := by
  have hfill := hbal.fill k
  have hsound' : Sound (Function.update s.conns c
      { s.conns c with rcvq := (s.conns c).rcvq.drop k }) s.line :=
    hsound.update (hsound.fits c) (hsound.origins c)
  cases htake : (s.conns c).rcvq.take k with
  | nil =>
    rw [htake] at hfill
    obtain ⟨rl, hrl, hunread⟩ := s.rl.fill_nil
    rw [hrl]
    refine live_got_eof hsound' hread ?_
    simp only [Sys.setConn, hunread, hfd]
    exact hfill
  | cons b t =>
    rw [htake] at hfill
    obtain ⟨rl, hrl, hunread⟩ := s.rl.fill_cons b t
    rw [hrl]
    refine live_got_byte hfd rfl hsound' hread ?_
    simp only [Sys.setConn, hunread]
    exact hfill.next

theorem live_read {s s' : Sys} {res : Except Errno ℕ} (h : Live s) (hs : s.read res = some s') :
    Inv s' := by
  unfold Sys.read at hs
  split at hs
  · next i sockfd n ptr hpc =>
    obtain ⟨hread, -, hbal⟩ := h.reading hpc
    split at hs
    · cases hs
    · next hcnt =>
      rw [Rline.unread_of_cnt_nonpos (by omega)] at hbal
      split at hs
      · -- interrupted: `read` is called again
        cases hs
        refine .live ⟨?_, h.sound, ?_⟩
        · simpa [Sys.cur, Sys.flight, hpc] using hbal
        · simp only [AtPc, hpc]
          exact ⟨hread, .inl rfl⟩
      · cases hs
        exact inv_got_error h.isolated
      · split at hs
        · cases hs
        · next c hfd =>
          split at hs
          · cases hs
            rw [hfd] at hbal
            exact .live (live_filled hfd h.sound hread hbal)
          · cases hs
  · cases hs

/-- The first bytes of a part of `line`, and the rest of it. -/
theorem take_drop_split {line : List UInt8} {ptr k left : ℕ} :
    (line.drop ptr).take (k + left)
      = (line.drop ptr).take k ++ (line.drop (ptr + k)).take left := by
  rw [← List.drop_drop, ← List.take_add]

/-- `write` takes the first `k` bytes in flight. -/
theorem live_written {s : Sys} {i : ℕ} {sockfd : Fd} {ptr nleft k left : ℕ} {c : ConnId}
    (h : Live s) (hpc : s.pc = .writing i sockfd ptr nleft) (hfd : s.fds sockfd = some c)
    (hleft : nleft = k + left) :
    Live { s.setConn c { s.conns c with
          echoed := (s.conns c).echoed ++ (s.line.drop ptr).take k
          origins := (s.conns c).origins ++ (List.range' ptr k).map s.origin } with
        pc := .writing i sockfd (ptr + k) left } := by
  obtain ⟨horigin, hbal⟩ := h.writing hpc
  rw [hfd, hleft, take_drop_split] at hbal
  refine ⟨?_, h.sound.update (h.sound.fits c) ?_, ?_⟩
  · simp only [Sys.cur, Sys.flight, Sys.setConn, hfd]
    exact hbal.write
  · intro o ho
    rw [List.mem_append, List.mem_map] at ho
    rcases ho with ho | ⟨j, hj, rfl⟩
    · exact h.sound.origins c o ho
    · rw [List.mem_range'_1] at hj
      rw [horigin j hj.1 (by omega), hfd]
  · intro j hj hj'
    exact horigin j (by omega) (by omega)

theorem live_write {s s' : Sys} {res : Except Errno ℕ} (h : Live s) (hs : s.write res = some s') :
    Inv s' := by
  unfold Sys.write at hs
  split at hs
  · next i sockfd ptr nleft hpc =>
    split at hs
    · cases hs
      exact .live h
    · cases hs
      exact h.exit
    · cases hs
      exact h.exit
    · next k =>
      split at hs
      · cases hs
      · next c hfd =>
        split at hs
        · next hk =>
          cases hs
          exact .live (live_written h hpc hfd (by omega))
        · cases hs
  · cases hs

/-- A client's move: it may add to what it sent, and nothing else that counts. -/
theorem Isolated.setConn {s : Sys} (h : Isolated s) {c : ConnId} {conn : Conn}
    (hechoed : conn.echoed = (s.conns c).echoed) (horigins : conn.origins = (s.conns c).origins)
    (hsent : (s.conns c).sent <+: conn.sent) : Isolated (s.setConn c conn) := by
  intro d
  simp only [Sys.setConn]
  rcases eq_or_ne d c with rfl | hd
  · rw [Function.update_self, hechoed, horigins]
    exact ⟨(h d).1.trans hsent, (h d).2⟩
  · rw [Function.update_of_ne hd]
    exact h d

/-- A connection is established or closed by its client. -/
theorem Inv.setConn {s : Sys} (h : Inv s) {c : ConnId} {conn : Conn} {backlog : List ConnId}
    (hechoed : conn.echoed = (s.conns c).echoed) (horigins : conn.origins = (s.conns c).origins)
    (hrcvq : conn.rcvq = (s.conns c).rcvq) (hsent : conn.sent = (s.conns c).sent) :
    Inv { s.setConn c conn with backlog } := by
  cases h with
  | live h =>
    refine .live ⟨h.balanced.other hechoed hrcvq hsent, h.sound.update ?_ ?_, h.atPc⟩
    · rw [hsent]
      exact h.sound.fits c
    · rw [horigins]
      exact h.sound.origins c
  | exited hpc h =>
    exact .exited hpc (h.setConn hechoed horigins (hsent ▸ List.prefix_rfl))

theorem Inv.send {s : Sys} (h : Inv s) {c : ConnId} {bs : List UInt8}
    (hfit : LinesFit ((s.conns c).sent ++ bs)) :
    Inv (s.setConn c { s.conns c with
      rcvq := (s.conns c).rcvq ++ bs, sent := (s.conns c).sent ++ bs }) := by
  cases h with
  | live h =>
    exact .live ⟨h.balanced.send bs, h.sound.update hfit (h.sound.origins c), h.atPc⟩
  | exited hpc h => exact .exited hpc (h.setConn rfl rfl (List.prefix_append _ _))

theorem live_accepted {s : Sys} (h : Live s) (hpc : s.pc = .accept) (connfd : Fd) (c : ConnId)
    (backlog : List ConnId) : Inv (s.accepted connfd c backlog) := by
  unfold Sys.accepted
  simp only
  split
  · exact h.exit
  · refine .live (live_of_idle ?_ h.sound (h.balanced_of_idle (by rw [hpc]; rfl)))
    simp only
    split <;> rfl

/-- A server that has left makes no step of its own. -/
theorem Inv.live_of_pc {s : Sys} (h : Inv s) (hpc : s.pc ≠ .exited) : Live s := by
  cases h with
  | live h => exact h
  | exited he _ => exact absurd he hpc

/-- **A careful step keeps the invariant.** -/
theorem inv_step (s : Sys) (a : Act) (s' : Sys) (h : Inv s) (hcare : Careful s a)
    (hs : step s a = some s') : Inv s' := by
  cases a with
  | connect c =>
    simp only [step] at hs
    split at hs
    · cases hs
    · cases hs
      exact h.setConn rfl rfl rfl rfl
  | send c bs =>
    simp only [step] at hs
    split at hs
    · cases hs
      exact h.send hcare
    · cases hs
  | finish c =>
    simp only [step] at hs
    split at hs
    · cases hs
      exact h.setConn rfl rfl rfl rfl
    · cases hs
  | select ready =>
    simp only [step] at hs
    split at hs
    · next hready =>
      cases hs
      have hlive := h.live_of_pc (by rw [hready.1]; nofun)
      refine .live (live_of_idle ?_ hlive.sound (hlive.balanced_of_idle (by rw [hready.1]; rfl)))
      simp only
      split <;> rfl
    · cases hs
  | selectFail e =>
    simp only [step] at hs
    split at hs
    · next hpc =>
      cases hs
      exact (h.live_of_pc (by rw [hpc]; nofun)).exit
    · cases hs
  | accept connfd =>
    simp only [step] at hs
    split at hs
    · next c backlog hpc hbacklog =>
      split at hs
      · cases hs
        exact live_accepted (h.live_of_pc (by rw [hpc]; nofun)) hpc connfd c backlog
      · cases hs
    · cases hs
  | acceptFail e =>
    simp only [step] at hs
    split at hs
    · next hpc =>
      split at hs
      · cases hs
        exact h
      · cases hs
        exact (h.live_of_pc (by rw [hpc]; nofun)).exit
    · cases hs
  | read res => exact live_read (h.live_of_pc (by intro hpc; simp [step, Sys.read, hpc] at hs)) hs
  | write res =>
    exact live_write (h.live_of_pc (by intro hpc; simp [step, Sys.write, hpc] at hs)) hs
  | tick =>
    exact live_tick (h.live_of_pc (by intro hpc; simp [step, Sys.tick, hpc] at hs)) hcare hs

theorem inv_init (listenfd : Fd) {line : List UInt8} (hline : line.length = maxLine) :
    Inv (init listenfd line) := by
  refine .live (live_of_idle rfl ⟨?_, ?_, hline⟩ ?_)
  · intro c i hi
    exact absurd hi (Nat.not_lt_zero i)
  · intro c o ho
    cases ho
  · intro c
    rfl

/-- **Isolation of the connections.**  In a run in which the clients' lines fit and
in which, whenever the server calls `Readline`, the static buffer holds no bytes of
another connection, what is written to a client is an initial part of what it sent,
each byte of it read from its own connection. -/
theorem isolated_of_careful (listenfd : Fd) (line : List UInt8) (hline : line.length = maxLine)
    (as : List Act) (s : Sys) (hrun : exec step (init listenfd line) as = some s)
    (hcare : Along step Careful (init listenfd line) as) : Isolated s :=
  (exec_invariant_along inv_step as _ s (inv_init listenfd hline) hcare hrun).isolated

/-- Two clients connect to a server whose listening socket is descriptor `3`; their
connections get the descriptors `4` and `5`. -/
def connectTwo : List Act :=
  [.connect 0, .select [3], .accept 4, .connect 1, .select [3], .accept 5]

/-- Each client sends a line, in a segment of its own; both are served in one pass. -/
def oneLineEachRun : List Act :=
  connectTwo ++
    [.send 0 [97, 10], .send 1 [120, 10], .select [4, 5],
     .tick, .read (.ok 2), .tick, .write (.ok 1), .write (.ok 1), .tick,
     .tick, .read (.error .eintr), .read (.ok 2), .tick, .write (.ok 2)]

theorem isolated_of_careful_oneLineEachRun :
    ∃ s, exec step (init 3 (List.replicate maxLine 0)) oneLineEachRun = some s ∧
      Along step Careful (init 3 (List.replicate maxLine 0)) oneLineEachRun ∧
      (s.conns 0).echoed = [97, 10] ∧ (s.conns 1).echoed = [120, 10] ∧ Isolated s := by
  obtain ⟨s, hs, hfacts⟩ := Option.map_eq_some_iff.mp
    (show (exec step (init 3 (List.replicate maxLine 0)) oneLineEachRun).map
        (fun s => ((s.conns 0).echoed, (s.conns 1).echoed)) = some ([97, 10], [120, 10]) by decide)
  simp only [Prod.mk.injEq] at hfacts
  have hcare : Along step Careful (init 3 (List.replicate maxLine 0)) oneLineEachRun := by decide
  exact ⟨s, hs, hcare, hfacts.1, hfacts.2,
    isolated_of_careful 3 _ List.length_replicate oneLineEachRun s hs hcare⟩

/-- The first client sends `"a\nb\n"` in one segment and gets its first line back; the
second line stays in the static buffer.  Then the second client sends `"x\n"`. -/
def twoLinesRun : List Act :=
  connectTwo ++
    [.send 0 [97, 10, 98, 10], .select [4], .tick, .read (.ok 4), .tick, .write (.ok 2), .tick,
     .send 1 [120, 10], .select [5], .tick, .tick, .tick, .tick, .write (.ok 2)]

/-- **A line can go to the wrong client**: after `twoLinesRun` the second client has
been sent `"b\n"`, the line of the first. -/
theorem line_echoed_to_wrong_client :
    ¬ ∀ (listenfd : Fd) (line : List UInt8) (s : Sys), line.length = maxLine →
      Reachable step (init listenfd line) s → Isolated s := by
  intro hall
  obtain ⟨s, hs, hfacts⟩ := Option.map_eq_some_iff.mp
    (show (exec step (init 3 (List.replicate maxLine 0)) twoLinesRun).map
        (fun s => ((s.conns 1).sent, (s.conns 1).echoed, (s.conns 1).origins))
      = some ([120, 10], [98, 10], [some 0, some 0]) by decide)
  simp only [Prod.mk.injEq] at hfacts
  obtain ⟨hsent, hechoed, -⟩ := hfacts
  have h := (hall 3 _ s List.length_replicate ⟨twoLinesRun, hs⟩ 1).1
  rw [hsent, hechoed] at h
  exact absurd h (by decide)

end Select
end TcpIp
