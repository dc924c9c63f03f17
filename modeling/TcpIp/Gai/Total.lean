import TcpIp.Gai.Law

/-!
# When `getaddrinfo` returns

`getaddrinfo` reports its failures with an error code.  One path does not come
back: `ga_nsearch` leaves the process through `err_quit` if it has nothing to
search for.  `ga_echeck` accepts the family `AF_LOCAL`, for which `ga_nsearch` has no
search, and the special case for Unix domain names stands between the two only if
the host is `"/local"` or `"/unix"` and the service is an absolute path.

## Main results

* `searches_eq_nil_iff` — behind `ga_echeck`, `AF_LOCAL` is the one family without a search.
* `getaddrinfo_returns_iff` — when `getaddrinfo` returns.
* `local_family_quits` — a call that does not.
-/

namespace TcpIp.Gai

open Fallible

/-! ### What `ga_echeck` accepts -/

/-- The arguments `ga_echeck` accepts. -/
theorem gaEcheck_eq_none_iff (hostname servname : Option CString) (hints : Hints) :
    gaEcheck hostname servname hints = none ↔
      hasFlag hints.flags (~~~(aiPassive ||| aiCanonname)) = false ∧
        (given hostname ∨ given servname) ∧
        (hints.family = afUnspec ∨
          ∃ types, socktypesOf hints.family = some types ∧
            (hints.socktype = 0 ∨ hints.socktype ∈ types)) := by
  unfold gaEcheck
  cases hflags : hasFlag hints.flags (~~~(aiPassive ||| aiCanonname)) with
  | true => simp
  | false =>
    by_cases hgiven : given hostname ∨ given servname
    · by_cases hunspec : hints.family = afUnspec
      · rcases hgiven with h | h <;> simp [h, hunspec]
      · cases htypes : socktypesOf hints.family with
        | none => rcases hgiven with h | h <;> simp [h, hunspec]
        | some types =>
          by_cases hsock : hints.socktype = 0 ∨ hints.socktype ∈ types
          · rcases hgiven with h | h <;> rcases hsock with h' | h' <;> simp [h, hunspec, h']
          · obtain ⟨hzero, hmem⟩ := not_or.mp hsock
            rcases hgiven with h | h <;> simp [h, hunspec, hzero, hmem]
    · obtain ⟨hh, hs⟩ := not_or.mp hgiven
      simp [hh, hs]

/-- `ga_nsearch` has searches for the internet families and for no given family. -/
theorem searches_eq_nil_iff (hostname : Option CString) (hints : Hints) :
    searches hostname hints = [] ↔
      hints.family ≠ afInet ∧ hints.family ≠ afInet6 ∧ hints.family ≠ afUnspec := by
  unfold searches searchesFor
  by_cases hin : hints.family = afInet
  · simp [hin]
  · by_cases hin6 : hints.family = afInet6
    · simp [hin6, afInet, afInet6]
    · by_cases hunspec : hints.family = afUnspec
      · simp [hunspec, afUnspec, afInet, afInet6]
      · simp [hin, hin6, hunspec]

/-- Behind `ga_echeck`, `AF_LOCAL` is the one family without a search. -/
theorem searches_eq_nil_iff_local {hostname servname : Option CString} {hints : Hints}
    (hcheck : gaEcheck hostname servname hints = none) :
    searches hostname hints = [] ↔ hints.family = afLocal := by
  rw [searches_eq_nil_iff]
  constructor
  · rintro ⟨hin, hin6, hunspec⟩
    obtain ⟨-, -, hfam⟩ := (gaEcheck_eq_none_iff hostname servname hints).mp hcheck
    obtain ⟨types, htypes, -⟩ := hfam.resolve_left hunspec
    simp only [socktypesOf, hin, hin6, if_false] at htypes
    split at htypes
    · next hlocal => exact hlocal
    · cases htypes
  · intro hlocal
    rw [hlocal]
    decide

/-! ### When it returns -/

theorem gaAistruct_behind (env : Env) (hints : Hints) (a : Addr) :
    Post (gaAistruct env hints a) (· = aistruct hints a) Behind := by
  have halloc := (allocate_post env).mono (fun _ h => h) behind_of_memFail
  by_cases ha : a.isInet
  · exact (gaAistruct_post env hints ha).mono (fun _ h => h) behind_of_memFail
  · cases a with
    | un path =>
      unfold gaAistruct
      refine post_bind halloc fun _ _ => ?_
      simp only
      split
      · exact post_throw ⟨_, rfl, by decide⟩
      · exact post_bind halloc fun _ _ => post_pure rfl
    | _ => exact absurd rfl ha

/-- A Unix domain name is always answered. -/
theorem gaUnix_behind (env : Env) (path : CString) (hints : Hints) :
    Post (gaUnix env path hints) (fun _ => True) Behind := by
  unfold gaUnix
  split
  · exact post_throw ⟨_, rfl, by decide⟩
  · refine post_bind (post_mapM _ fun socktype _ =>
      gaAistruct_behind env { hints with socktype } (.un path)) fun ais _ => ?_
    split
    · split
      · exact post_throw ⟨_, rfl, by decide⟩
      · exact post_bind ((allocate_post env).mono (fun _ h => h) behind_of_memFail)
          fun _ _ => post_pure trivial
    · exact post_pure trivial

/-- The arguments pass `ga_echeck` with the family `AF_LOCAL`, but do not name a Unix
domain socket. -/
structure LocalWithoutPath (hostname servname : Option CString) (hints : Hints) : Prop where
  family : hints.family = afLocal
  socktype : hints.socktype ∈ [0, sockStream, sockDgram]
  flags : hasFlag hints.flags (~~~(aiPassive ||| aiCanonname)) = false
  given : given hostname ∨ given servname
  notUnix : unixCase hostname servname = false

theorem LocalWithoutPath.gaEcheck_eq_none {hostname servname : Option CString} {hints : Hints}
    (h : LocalWithoutPath hostname servname hints) : gaEcheck hostname servname hints = none := by
  refine (gaEcheck_eq_none_iff hostname servname hints).mpr ⟨h.flags, h.given, .inr ?_⟩
  refine ⟨[sockStream, sockDgram], ?_, List.mem_cons.mp h.socktype⟩
  rw [h.family]
  rfl

/-- The path that does not come back. -/
theorem getaddrinfo_quits {env : Env} {hostname servname : Option CString}
    {hintsp : Option Hints} (h : LocalWithoutPath hostname servname (hintsp.getD {})) (n : ℕ) :
    getaddrinfo env hostname servname hintsp n = .error .quit := by
  have hcheck := h.gaEcheck_eq_none
  have hnil := (searches_eq_nil_iff_local hcheck).mpr h.family
  rw [getaddrinfo, hcheck]
  simp only
  rw [h.notUnix, if_neg (by simp), getaddrinfoInet, gaNsearch_eq, if_pos hnil]
  rfl

/-- All others do. -/
theorem getaddrinfo_returned {env : Env} {hostname servname : Option CString}
    {hintsp : Option Hints} (h : ¬ LocalWithoutPath hostname servname (hintsp.getD {})) :
    Post (getaddrinfo env hostname servname hintsp) (fun _ => True) Returned := by
  cases hcheck : gaEcheck hostname servname (hintsp.getD {}) with
  | some e =>
    rw [getaddrinfo, hcheck]
    exact post_throw ⟨e, rfl⟩
  | none =>
    rw [getaddrinfo, hcheck]
    simp only
    by_cases hunix : unixCase hostname servname
    · rw [if_pos hunix]
      exact (gaUnix_behind env _ _).mono (fun _ h => h) fun _ he => he.returned
    · rw [if_neg hunix]
      refine (getaddrinfoInet_post env hostname servname _).mono (fun _ _ => trivial) ?_
      rintro e (he | hnil)
      · exact he.returned
      · -- nothing to search for: the condition would hold
        have hlocal := (searches_eq_nil_iff_local hcheck).mp hnil
        obtain ⟨hflags, hgiven, hfam⟩ := (gaEcheck_eq_none_iff _ _ _).mp hcheck
        refine absurd ⟨hlocal, ?_, hflags, hgiven, by simpa using hunix⟩ h
        rcases hfam with hfam | ⟨types, htypes, hsock⟩
        · rw [hlocal] at hfam
          cases hfam
        · rw [hlocal] at htypes
          cases htypes
          exact List.mem_cons.mpr hsock

/-- **When `getaddrinfo` returns.**  Whatever the resolver and the allocator do, it
returns `0` or an error to its caller exactly if the arguments are not those of
`LocalWithoutPath`.  Behind `ga_echeck` and the special case for Unix domain names,
`ga_nsearch` comes back, with one search or two, exactly if the family is not
`AF_LOCAL`. -/
theorem getaddrinfo_returns_iff (env : Env) (hostname servname : Option CString)
    (hintsp : Option Hints) (n : ℕ) :
    ((∃ r, getaddrinfo env hostname servname hintsp n = .ok r) ∨
        (∃ e, getaddrinfo env hostname servname hintsp n = .error (.eai e)) ↔
      ¬ LocalWithoutPath hostname servname (hintsp.getD {})) ∧
    (gaEcheck hostname servname (hintsp.getD {}) = none → unixCase hostname servname = false →
      ((∃ ss, gaNsearch hostname (hintsp.getD {}) n = .ok (ss, n) ∧
          (ss.length = 1 ∨ ss.length = 2)) ↔ (hintsp.getD {}).family ≠ afLocal)) := by
  refine ⟨⟨?_, ?_⟩, ?_⟩
  · rintro hret hlocal
    rw [getaddrinfo_quits hlocal] at hret
    rcases hret with ⟨r, hr⟩ | ⟨e, he⟩
    · cases hr
    · cases he
  · intro hnot
    cases hrun : getaddrinfo env hostname servname hintsp n with
    | ok r => exact .inl ⟨r, rfl⟩
    | error e =>
      obtain ⟨c, rfl⟩ := (getaddrinfo_returned hnot).error hrun
      exact .inr ⟨c, rfl⟩
  · intro hcheck _
    rw [gaNsearch_eq, ← not_iff_not, not_not, ← searches_eq_nil_iff_local hcheck]
    have hle := length_searches_le hostname (hintsp.getD {})
    constructor
    · intro hnone
      by_contra hne
      have hpos := List.length_pos_iff.mpr hne
      rw [if_neg hne] at hnone
      exact hnone ⟨_, rfl, by omega⟩
    · rintro hnil ⟨ss, hss, -⟩
      rw [if_pos hnil] at hss
      cases hss

/-- A server that asks for the addresses to bind to. -/
theorem getaddrinfo_returns_iff_passive :
    ∃ ss, gaNsearch none { flags := aiPassive } 0 = .ok (ss, 0) ∧
      (ss.length = 1 ∨ ss.length = 2) :=
  ((getaddrinfo_returns_iff sampleEnv none (some ['8', '0']) (some { flags := aiPassive }) 0).2
    (by decide) (by decide)).mpr (by decide)

/-- **A call that does not return**: the service `"daytime"` on the host `"localhost"`, with
hints that ask for the family `AF_LOCAL` and nothing else. -/
theorem local_family_quits :
    gaEcheck (some ['l', 'o', 'c', 'a', 'l', 'h', 'o', 's', 't'])
        (some ['d', 'a', 'y', 't', 'i', 'm', 'e']) { family := afLocal } = none ∧
      ∀ env, getaddrinfo env (some ['l', 'o', 'c', 'a', 'l', 'h', 'o', 's', 't'])
        (some ['d', 'a', 'y', 't', 'i', 'm', 'e']) (some { family := afLocal }) 0
          = .error .quit := by
  refine ⟨by decide, fun env => getaddrinfo_quits ⟨rfl, ?_, ?_, ?_, ?_⟩ 0⟩
  · decide
  · decide
  · decide
  · decide

end TcpIp.Gai
