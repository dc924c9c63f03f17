import TcpIp.Gai.Total

/-!
# The flag `AI_CLONE`

An entry stands for every socket type while `AI_CLONE` is set in its flags.  The clones
have the flag off, but nothing takes it off the entries they were cloned from, so that
it is still there in what `getaddrinfo` returns.

## Main results

* `getaddrinfo_badflags_iff` — what `EAI_BADFLAGS` is returned for.
* `no_clone_iff` — when no entry with `AI_CLONE` is returned.
* `clone_returned` — an entry that cannot be passed back as hints.
-/

namespace TcpIp.Gai

open Fallible

section Flags

variable {ai x : Addrinfo} {ts : List (ℤ × UInt16)}

/-- The flags of an entry stay, and its clones have none. -/
theorem flags_of_mem_spread (hx : x ∈ spread ai ts) : x.flags = ai.flags ∨ x.flags = 0 := by
  cases ts with
  | nil =>
    rw [List.mem_singleton.mp hx]
    exact .inl rfl
  | cons q ts =>
    rcases List.mem_cons.mp hx with rfl | hx
    · exact .inl rfl
    · obtain ⟨r, -, rfl⟩ := List.mem_map.mp hx
      exact .inr rfl

theorem exists_mem_spread (ai : Addrinfo) (ts : List (ℤ × UInt16)) :
    ∃ x ∈ spread ai ts, x.flags = ai.flags := by
  cases ts with
  | nil => exact ⟨ai, List.mem_singleton_self ai, rfl⟩
  | cons q ts => exact ⟨_, List.mem_cons_self, rfl⟩

end Flags

/-- The flags in a list of entries: those that `ga_aistruct` sets are in one of them, and
no others in any. -/
def FlagsOf (hints : Hints) (r : List Addrinfo) : Prop :=
  (∃ ai ∈ r, ai.flags = if hints.socktype = 0 then aiClone else 0) ∧
    ∀ ai ∈ r, ai.flags = (if hints.socktype = 0 then aiClone else 0) ∨ ai.flags = 0

theorem flagsOf_spread {hints : Hints} {ais : List Addrinfo} (hne : ais ≠ [])
    (hais : ∀ ai ∈ ais, Fresh hints ai) (ts : List (ℤ × UInt16)) :
    FlagsOf hints (ais.flatMap (spread · ts)) := by
  constructor
  · obtain ⟨ai, hai⟩ := List.exists_mem_of_ne_nil ais hne
    obtain ⟨x, hx, hflags⟩ := exists_mem_spread ai ts
    exact ⟨x, List.mem_flatMap.mpr ⟨ai, hai, hx⟩, hflags.trans (hais ai hai).flags⟩
  · intro x hx
    obtain ⟨ai, hai, hx⟩ := List.mem_flatMap.mp hx
    rw [← (hais ai hai).flags]
    exact flags_of_mem_spread hx

theorem service_flags_post (env : Env) {hints : Hints} {wanted : Bool} {as : List Addr}
    {ais : List Addrinfo} (h : Looked hints wanted as ais) (has : ∀ a ∈ as, a.isInet)
    (servname : Option CString) :
    Post (service env servname hints ais) (FlagsOf hints) Behind := by
  have hne : ais ≠ [] := by
    obtain ⟨first, rest, rfl, -⟩ := h.canon
    exact List.cons_ne_nil first rest
  have hfresh : ∀ ai ∈ ais, Fresh hints ai := fun ai hai => h.fresh has hai
  rcases servname with _ | _ | ⟨c, cs⟩
  · exact post_pure (flatMap_spread_nil ais ▸ flagsOf_spread hne hfresh [])
  · exact post_pure (flatMap_spread_nil ais ▸ flagsOf_spread hne hfresh [])
  · refine (gaServ_post env hints (c :: cs) hne hfresh).mono ?_
      fun e he => he.elim (behind_of_memFail e) And.right
    rintro _ ⟨-, rfl⟩
    exact flagsOf_spread hne hfresh _

theorem getaddrinfoInet_flags_post (env : Env) (hostname servname : Option CString)
    (hints : Hints) :
    Post (getaddrinfoInet env hostname servname hints) (FlagsOf hints)
      (fun e => Behind e ∨ searches hostname hints = []) :=
  (getaddrinfoInet_post_of_service fun _ hlooked =>
    service_flags_post env hlooked (fun _ ha => isInet_of_mem_addresses ha) servname).mono
      (fun _ hr => hr.2) fun _ he => he

/-- The fields of an entry, as hints for another call. -/
def Addrinfo.hints (ai : Addrinfo) : Hints := ⟨ai.flags, ai.family, ai.socktype, ai.protocol⟩

theorem gaEcheck_badflags_iff (hostname servname : Option CString) (hints : Hints) :
    gaEcheck hostname servname hints = some .badflags ↔
      hasFlag hints.flags (~~~(aiPassive ||| aiCanonname)) := by
  unfold gaEcheck
  constructor
  · intro h
    by_contra hflags
    rw [if_neg hflags] at h
    -- every other check has an error of its own
    split at h
    · cases h
    · split at h
      · cases h
      · split at h
        · cases h
        · split at h
          · cases h
          · cases h
  · intro hflags
    rw [if_pos hflags]

/-- **`EAI_BADFLAGS` is returned for flags that are not known**, and for nothing else. -/
theorem getaddrinfo_badflags_iff (env : Env) (hostname servname : Option CString)
    (hintsp : Option Hints) (n : ℕ) :
    getaddrinfo env hostname servname hintsp n = .error (.eai .badflags) ↔
      hasFlag (hintsp.getD {}).flags (~~~(aiPassive ||| aiCanonname)) := by
  rw [← gaEcheck_badflags_iff hostname servname]
  unfold getaddrinfo
  have hnot : ∀ e, Behind e → e ≠ .eai .badflags := by
    rintro _ ⟨c, rfl, hc⟩ heq
    cases heq
    exact hc rfl
  cases hcheck : gaEcheck hostname servname (hintsp.getD {}) with
  | some e =>
    constructor
    · intro h
      cases h
      rfl
    · intro h
      cases h
      rfl
  | none =>
    refine ⟨fun h => ?_, fun h => by cases h⟩
    simp only at h
    split at h
    · exact absurd rfl (hnot _ ((gaUnix_behind env _ _).error h))
    · rcases (getaddrinfoInet_post env hostname servname _).error h with hbehind | hnil
      · exact absurd rfl (hnot _ hbehind)
      · rw [getaddrinfoInet, gaNsearch_eq, if_pos hnil] at h
        cases h

/-- **When no entry with `AI_CLONE` is returned.**  The entries that a call returns on the
IPv4 and IPv6 path are free of the flag, and each of them can be passed back as hints
without an `EAI_BADFLAGS`, exactly if the caller gave a socket type: otherwise the flag
is still set in the first entry of every address. -/
theorem no_clone_iff (env : Env) (hostname servname : Option CString) (hintsp : Option Hints)
    (hunix : unixCase hostname servname = false) (n n' : ℕ) (ais : List Addrinfo)
    (hrun : getaddrinfo env hostname servname hintsp n = .ok (ais, n')) :
    ((∀ ai ∈ ais, hasFlag ai.flags aiClone = false) ∧
      ∀ ai ∈ ais, ∀ env' hostname' servname' m,
        getaddrinfo env' hostname' servname' (some ai.hints) m ≠ .error (.eai .badflags)) ↔
      (hintsp.getD {}).socktype ≠ 0 := by
  obtain ⟨⟨ai, hai, hflags⟩, hall⟩ :=
    (getaddrinfoInet_flags_post env hostname servname _).ok (getaddrinfoInet_of_ok hunix hrun)
  constructor
  · rintro ⟨hfree, -⟩ hzero
    rw [if_pos hzero] at hflags
    have hfalse := hfree ai hai
    rw [hflags] at hfalse
    exact absurd hfalse (by decide)
  · intro hnz
    have hzero : ∀ ai ∈ ais, ai.flags = 0 := by
      intro ai hai
      have h := hall ai hai
      rw [if_neg hnz, or_self] at h
      exact h
    refine ⟨fun ai hai => by rw [hzero ai hai]; decide, ?_⟩
    intro ai hai env' hostname' servname' m hbad
    have hflag : hasFlag ai.flags (~~~(aiPassive ||| aiCanonname)) = true :=
      (getaddrinfo_badflags_iff env' hostname' servname' (some ai.hints) m).mp hbad
    rw [hzero ai hai] at hflag
    exact absurd hflag (by decide)

/-- A call for stream sockets only. -/
theorem no_clone_iff_stream : ∃ ais n',
    getaddrinfo sampleEnv (some ['h']) (some ['8', '0']) (some { socktype := sockStream }) 0
        = .ok (ais, n') ∧
      ∀ ai ∈ ais, hasFlag ai.flags aiClone = false := by
  cases hrun : getaddrinfo sampleEnv (some ['h']) (some ['8', '0'])
      (some { socktype := sockStream }) 0 with
  | error e =>
    have hok : (getaddrinfo sampleEnv (some ['h']) (some ['8', '0'])
        (some { socktype := sockStream }) 0).isOk = true := by decide
    rw [hrun] at hok
    cases hok
  | ok r =>
    exact ⟨r.1, r.2, rfl, ((no_clone_iff sampleEnv (some ['h']) (some ['8', '0'])
      (some { socktype := sockStream }) (by decide) 0 r.2 r.1 hrun).mpr (by decide)).1⟩

/-- **An entry that cannot be passed back**: port 80 without a socket type.  The first of the
two entries has `AI_CLONE` in its flags, and a call with its flags, family, socket type
and protocol as hints fails with `EAI_BADFLAGS`. -/
theorem clone_returned :
    (getaddrinfo sampleEnv (some ['h']) (some ['8', '0']) none 0).toOption.map
        (fun r => r.1.map fun ai => (ai.socktype, ai.flags))
      = some [(sockStream, aiClone), (sockDgram, 0)] ∧
    (getaddrinfo sampleEnv (some ['h']) (some ['8', '0']) none 0).toOption.map
        (fun r => r.1.map fun ai =>
          getaddrinfo sampleEnv (some ['h']) (some ['8', '0']) (some ai.hints) 0
            matches .error (.eai .badflags))
      = some [true, false] := by
  decide

end TcpIp.Gai
