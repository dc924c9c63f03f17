import Mathlib.Data.List.Forall2
import TcpIp.Lib.Buffer
import TcpIp.Lib.Chain
import TcpIp.Gai.Law

/-!
# Passes over memory

`ga_port` walks a list of `addrinfo` structures and has `ga_clone` splice new ones into
it, behind the one it stands on.  Here the list is what it is in the source: structures
in memory that point to each other and each to a block of memory with its address.

## Main definitions

* `Heap.gaPort`, `Heap.gaClone` — the two functions, on memory.
* `Heap.Lists` — the entries in memory from one structure to another.
* `Ent.Group` — what a number of passes make of one entry.

## Main results

* `Heap.gaPort_lists` — a pass over memory ends, and treats the entries independently.
* `Heap.gaPort_refines` — it does what a pass over a list does.
* `Heap.gaPorts_groups` — any number of socket types.
-/

namespace TcpIp.Gai

open Buffer Chain

/-! ### Memory -/

/-- A structure `addrinfo`; pointers are numbers, or `none` for `NULL`. -/
structure Node where
  flags : BitVec 32 := 0
  family : ℤ := 0
  socktype : ℤ := 0
  protocol : ℤ := 0
  addrlen : ℕ := 0
  canonname : Option CString := none
  addr : Option ℕ := none
  next : Option ℕ := none

/-- The memory: structures, and blocks of bytes. -/
structure Heap where
  node : ℕ → Node
  block : ℕ → List UInt8
  /-- How often the allocator has been called; also the next block it gives. -/
  brk : ℕ

/-- The two bytes of a number of 16 bits, as they are in memory. -/
def shortBytes (env : Env) (x : UInt16) : List UInt8 :=
  let low := UInt8.ofNat x.toNat
  let high := UInt8.ofNat (x.toNat / 256)
  if env.bigEndian then [high, low] else [low, high]

@[simp] theorem length_shortBytes (env : Env) (x : UInt16) : (shortBytes env x).length = 2 := by
  unfold shortBytes
  split <;> rfl

/-- The families in whose addresses `ga_port` fills in a port. -/
def inetFamily (family : ℤ) : Bool := family == afInet || family == afInet6

namespace Heap

def setNode (h : Heap) (p : ℕ) (n : Node) : Heap := { h with node := Function.update h.node p n }

def setBlock (h : Heap) (p : ℕ) (bs : List UInt8) : Heap :=
  { h with block := Function.update h.block p bs }

/-- `malloc`.  What is in the block is not known. -/
def malloc (env : Env) (h : Heap) : Option ℕ × Heap :=
  (if env.alloc h.brk then some h.brk else none, { h with brk := h.brk + 1 })

/-- `calloc(1, sizeof(struct addrinfo))`. -/
def calloc (env : Env) (h : Heap) : Option ℕ × Heap :=
  match h.malloc env with
  | (some p, h) => (some p, h.setNode p {})
  | (none, h) => (none, h)

/-- `ga_clone`: the new structure, or `NULL`.  There is no result if `ai_addr` is `NULL`. -/
def gaClone (env : Env) (ai : ℕ) (h : Heap) : Option (Option ℕ × Heap) :=
  match h.calloc env with
  | (none, h) => some (none, h)
  | (some new, h) =>
    -- the new structure is linked in before its address is allocated
    let h := h.setNode new { h.node new with next := (h.node ai).next }
    let h := h.setNode ai { h.node ai with next := some new }
    let h := h.setNode new { h.node new with
      flags := 0
      family := (h.node ai).family
      socktype := (h.node ai).socktype
      protocol := (h.node ai).protocol
      canonname := none
      addrlen := (h.node ai).addrlen }
    match h.malloc env with
    | (none, h) => some (none, h.setNode new { h.node new with addr := none })
    | (some p, h) =>
      let h := h.setNode new { h.node new with addr := some p }
      (h.node ai).addr.map fun q =>
        (some new, h.setBlock p ((h.block q).take (h.node ai).addrlen))

/-- The end of the loop body of `ga_port`: the socket type and the port are filled in.
`sin_port` and `sin6_port` are both at offset 2. -/
def fill (env : Env) (port : UInt16) (socktype : ℤ) (ai : ℕ) (h : Heap) : Option (ℕ × Heap) :=
  let h := h.setNode ai { h.node ai with socktype }
  if inetFamily (h.node ai).family then
    (h.node ai).addr.map fun p => (1, h.setBlock p (writeAt (h.block p) 2 (shortBytes env port)))
  else some (0, h)

/-- How the loop of `ga_port` goes on. -/
inductive Next where
  /-- `return(-1)`. -/
  | failed
  /-- On to a structure, with what has to be added to `nfound`. -/
  | on (ai : Option ℕ) (k : ℕ)

/-- The loop body of `ga_port`, with the step to `ai->ai_next`. -/
def visit (env : Env) (port : UInt16) (socktype : ℤ) (ai : ℕ) (h : Heap) : Option (Next × Heap) :=
  if hasFlag (h.node ai).flags aiClone then
    if (h.node ai).socktype ≠ 0 then do
      let (new, h) ← h.gaClone env ai
      match new with
      | none => some (.failed, h)
      | some ai => do
        let (k, h) ← h.fill env port socktype ai
        some (.on (h.node ai).next k, h)
    else do
      let (k, h) ← h.fill env port socktype ai
      some (.on (h.node ai).next k, h)
  else if (h.node ai).socktype ≠ socktype then some (.on (h.node ai).next 0, h)
  else do
    let (k, h) ← h.fill env port socktype ai
    some (.on (h.node ai).next k, h)

/-- The loop of `ga_port`, for at most `fuel` rounds. -/
def loop (env : Env) (port : UInt16) (socktype : ℤ) : ℕ → Option ℕ → ℤ → Heap → Option (ℤ × Heap)
  | _, none, nfound, h => some (nfound, h)
  | 0, some _, _, _ => none
  | fuel + 1, some ai, nfound, h =>
    match h.visit env port socktype ai with
    | none => none
    | some (.failed, h) => some (-1, h)
    | some (.on next k, h) => loop env port socktype fuel next (nfound + k) h

/-- `ga_port`, on memory. -/
def gaPort (env : Env) (fuel : ℕ) (aihead : Option ℕ) (port : UInt16) (socktype : ℤ) (h : Heap) :
    Option (ℤ × Heap) :=
  h.loop env port socktype fuel aihead 0

end Heap

/-! ### Entries in memory -/

/-- What a structure and the bytes of its address amount to. -/
structure Ent where
  flags : BitVec 32
  family : ℤ
  socktype : ℤ
  protocol : ℤ
  canonname : Option CString
  addr : List UInt8
  deriving DecidableEq, Repr

namespace Ent

/-- The structure of an entry, given the place of its address and the next structure. -/
def node (e : Ent) (p : ℕ) (next : Option ℕ) : Node :=
  ⟨e.flags, e.family, e.socktype, e.protocol, e.addr.length, e.canonname, some p, next⟩

/-- The entry after its socket type and its port have been filled in. -/
def fill (env : Env) (port : UInt16) (socktype : ℤ) (e : Ent) : Ent :=
  { e with
    socktype
    addr := if inetFamily e.family then writeAt e.addr 2 (shortBytes env port) else e.addr }

/-- A clone of the entry. -/
def clone (e : Ent) : Ent := { e with flags := 0, canonname := none }

/-- What a pass makes of one entry. -/
def pass (env : Env) (port : UInt16) (socktype : ℤ) (e : Ent) : List Ent :=
  if hasFlag e.flags aiClone then
    if e.socktype ≠ 0 then [e, e.clone.fill env port socktype] else [e.fill env port socktype]
  else if e.socktype ≠ socktype then [e] else [e.fill env port socktype]

/-- The entry is counted in `nfound`. -/
def found (socktype : ℤ) (e : Ent) : Bool :=
  (hasFlag e.flags aiClone || e.socktype == socktype) && inetFamily e.family

/-- The address is long enough to have a port. -/
def HasPort (e : Ent) : Prop := 4 ≤ e.addr.length

end Ent

namespace Heap

variable {env : Env} {port : UInt16} {t : ℤ} {h h' : Heap} {x : ℕ × ℕ} {e : Ent}

/-- The structure `x.1` and its address at `x.2` are those of an entry. -/
structure Cell (h : Heap) (x : ℕ × ℕ) (e : Ent) : Prop where
  node : h.node x.1 = e.node x.2 (h.node x.1).next
  block : h.block x.2 = e.addr
  node_lt : x.1 < h.brk
  block_lt : x.2 < h.brk

/-- From the structure `p` to the structure `q` there are the entries `es`; `xs` are the
places of the structures and of their addresses. -/
structure Lists (h : Heap) (p : Option ℕ) (xs : List (ℕ × ℕ)) (q : Option ℕ) (es : List Ent) :
    Prop where
  seg : Seg (fun c => (h.node c).next) p (xs.map Prod.fst) q
  cells : List.Forall₂ h.Cell xs es
  /-- No two structures share their address. -/
  sep : (xs.map Prod.snd).Nodup

/-- All that has changed from `h` to `h'` is at the places `xs` or newly allocated. -/
structure Frame (h h' : Heap) (xs : List (ℕ × ℕ)) : Prop where
  node : ∀ c < h.brk, c ∉ xs.map Prod.fst → h'.node c = h.node c
  block : ∀ p < h.brk, p ∉ xs.map Prod.snd → h'.block p = h.block p
  brk : h.brk ≤ h'.brk

/-- Changes made one after the other. -/
theorem Frame.trans {h'' : Heap} {xs ys zs : List (ℕ × ℕ)} (hf : h.Frame h' xs)
    (hg : h'.Frame h'' ys) (hxs : xs ⊆ zs)
    (hys : ∀ y ∈ ys, y ∈ zs ∨ h.brk ≤ y.1 ∧ h.brk ≤ y.2) : h.Frame h'' zs where
  node c hlt hc := by
    have hcys : c ∉ ys.map Prod.fst := by
      intro hmem
      obtain ⟨y, hy, rfl⟩ := List.mem_map.mp hmem
      rcases hys y hy with hz | hge
      · exact hc (List.mem_map_of_mem hz)
      · omega
    rw [hg.node c (Nat.lt_of_lt_of_le hlt hf.brk) hcys]
    exact hf.node c hlt fun hmem => hc (List.map_subset _ hxs hmem)
  block p hlt hp := by
    have hpys : p ∉ ys.map Prod.snd := by
      intro hmem
      obtain ⟨y, hy, rfl⟩ := List.mem_map.mp hmem
      rcases hys y hy with hz | hge
      · exact hp (List.mem_map_of_mem hz)
      · omega
    rw [hg.block p (Nat.lt_of_lt_of_le hlt hf.brk) hpys]
    exact hf.block p hlt fun hmem => hp (List.map_subset _ hxs hmem)
  brk := hf.brk.trans hg.brk

theorem Cell.frame {xs : List (ℕ × ℕ)} (hc : h.Cell x e) (hf : h.Frame h' xs)
    (hfst : x.1 ∉ xs.map Prod.fst) (hsnd : x.2 ∉ xs.map Prod.snd) : h'.Cell x e := by
  have hnode := hf.node x.1 hc.node_lt hfst
  have hblock := hf.block x.2 hc.block_lt hsnd
  exact ⟨by rw [hnode]; exact hc.node, hblock.trans hc.block, Nat.lt_of_lt_of_le hc.node_lt hf.brk,
    Nat.lt_of_lt_of_le hc.block_lt hf.brk⟩

namespace Lists

variable {p q r : Option ℕ} {xs ys zs : List (ℕ × ℕ)} {es fs : List Ent}

theorem lt (hl : h.Lists p xs q es) (hx : x ∈ xs) : x.1 < h.brk ∧ x.2 < h.brk := by
  obtain ⟨i, hi, rfl⟩ := List.getElem_of_mem hx
  have hc := hl.cells.get hi (hl.cells.length_eq ▸ hi)
  exact ⟨hc.node_lt, hc.block_lt⟩

/-- The entries are still there after changes in other places. -/
theorem frame (hl : h.Lists p xs q es) (hf : h.Frame h' zs)
    (hfst : ∀ x ∈ xs, x.1 ∉ zs.map Prod.fst) (hsnd : ∀ x ∈ xs, x.2 ∉ zs.map Prod.snd) :
    h'.Lists p xs q es where
  seg := by
    refine Seg.congr _ hl.seg fun c hc => ?_
    obtain ⟨x, hx, rfl⟩ := List.mem_map.mp hc
    exact congrArg Node.next (hf.node x.1 (hl.lt hx).1 (hfst x hx))
  cells := by
    have hboth := (List.forall₂_and_left xs es).mpr
      ⟨fun x hx => And.intro (hfst x hx) (hsnd x hx), hl.cells⟩
    exact hboth.imp fun x e hx => hx.2.frame hf hx.1.1 hx.1.2
  sep := hl.sep

theorem append (hl : h.Lists p xs q es) (hr : h.Lists q ys r fs)
    (hsep : ∀ x ∈ xs, ∀ y ∈ ys, x.2 ≠ y.2) : h.Lists p (xs ++ ys) r (es ++ fs) where
  seg := by
    rw [List.map_append]
    exact (seg_append _).mpr ⟨q, hl.seg, hr.seg⟩
  cells := List.rel_append hl.cells hr.cells
  sep := by
    rw [List.map_append]
    refine List.nodup_append.mpr ⟨hl.sep, hr.sep, ?_⟩
    intro a ha b hb
    obtain ⟨x, hx, rfl⟩ := List.mem_map.mp ha
    obtain ⟨y, hy, rfl⟩ := List.mem_map.mp hb
    exact hsep x hx y hy

end Lists

/-! ### A round of the loop -/

/-- `env` has refused an allocation. -/
def OutOfMemory (env : Env) : Prop := ∃ n, env.alloc n = false

/-- The memory after the structure and the address of an entry have been written. -/
def put (h : Heap) (x : ℕ × ℕ) (e : Ent) (next : Option ℕ) : Heap :=
  (h.setNode x.1 (e.node x.2 next)).setBlock x.2 e.addr

@[simp] theorem put_next {next : Option ℕ} : ((h.put x e next).node x.1).next = next := by
  simp [put, setNode, setBlock, Ent.node]

theorem put_cell {next : Option ℕ} (hfst : x.1 < h.brk) (hsnd : x.2 < h.brk) :
    (h.put x e next).Cell x e where
  node := by simp [put, setNode, setBlock, Ent.node]
  block := by simp [put, setBlock]
  node_lt := hfst
  block_lt := hsnd

theorem put_frame {next : Option ℕ} : h.Frame (h.put x e next) [x] where
  node c _ hc := by
    have hne : c ≠ x.1 := by simpa using hc
    simp [put, setNode, setBlock, hne]
  block p _ hp := by
    have hne : p ≠ x.2 := by simpa using hp
    simp [put, setNode, setBlock, hne]
  brk := Nat.le_refl _

theorem put_put {e' : Ent} {next next' : Option ℕ} :
    (h.put x e next).put x e' next' = h.put x e' next' := by
  simp [put, setNode, setBlock]

/-- An entry that has been written. -/
theorem put_lists {next : Option ℕ} (hfst : x.1 < h.brk) (hsnd : x.2 < h.brk) :
    (h.put x e next).Lists (some x.1) [x] next [e] where
  seg := ⟨rfl, put_next⟩
  cells := .cons (put_cell hfst hsnd) .nil
  sep := List.nodup_singleton _

/-- Two entries that have been written, the second one behind the first. -/
theorem put_put_lists {y : ℕ × ℕ} {f : Ent} {next : Option ℕ} (hfst : x.1 < y.1)
    (hsnd : x.2 < y.2) (hy₁ : y.1 < h.brk) (hy₂ : y.2 < h.brk) :
    ((h.put x e (some y.1)).put y f next).Lists (some x.1) [x, y] next [e, f] := by
  have hframe : (h.put x e (some y.1)).Frame ((h.put x e (some y.1)).put y f next) [y] := put_frame
  have hfst' : x.1 ∉ [y].map Prod.fst := by simpa using Nat.ne_of_lt hfst
  have hsnd' : x.2 ∉ [y].map Prod.snd := by simpa using Nat.ne_of_lt hsnd
  have hx : (h.put x e (some y.1)).Lists (some x.1) [x] (some y.1) [e] :=
    put_lists (hfst.trans hy₁) (hsnd.trans hy₂)
  refine (hx.frame hframe ?_ ?_).append (put_lists hy₁ hy₂) ?_
  · rintro _ (_ | ⟨_, ⟨⟩⟩)
    exact hfst'
  · rintro _ (_ | ⟨_, ⟨⟩⟩)
    exact hsnd'
  · rintro _ (_ | ⟨_, ⟨⟩⟩) _ (_ | ⟨_, ⟨⟩⟩)
    exact Nat.ne_of_lt hsnd

/-- The socket type and the port of an entry are filled in. -/
theorem fill_eq (hc : h.Cell x e) (hport : e.HasPort) :
    h.fill env port t x.1 = some (if inetFamily e.family then 1 else 0,
      h.put x (e.fill env port t) (h.node x.1).next) := by
  have hnode := hc.node
  have hblock := hc.block
  generalize (h.node x.1).next = next at hnode
  cases hin : inetFamily e.family with
  | true =>
    have hlen : (writeAt e.addr 2 (shortBytes env port)).length = e.addr.length :=
      length_writeAt (by rw [length_shortBytes]; exact hport)
    simp [fill, put, setNode, setBlock, hnode, hblock, Ent.node, Ent.fill, hin, hlen]
  | false =>
    have hself : Function.update h.block x.2 e.addr = h.block := by
      rw [← hblock, Function.update_eq_self]
    simp [fill, put, setNode, setBlock, hnode, Ent.node, Ent.fill, hin, hself]

/-- A clone is spliced in, if there is memory for it. -/
theorem gaClone_eq (hc : h.Cell x e) (hnew : env.alloc h.brk) (haddr : env.alloc (h.brk + 1)) :
    h.gaClone env x.1 = some (some h.brk,
      ({ h with brk := h.brk + 2 }.put x e (some h.brk)).put (h.brk, h.brk + 1) e.clone
        (h.node x.1).next) := by
  have hnode := hc.node
  have hblock := hc.block
  have hne : x.1 ≠ h.brk := Nat.ne_of_lt hc.node_lt
  have hself : Function.update h.block x.2 e.addr = h.block := by
    rw [← hblock, Function.update_eq_self]
  -- the new structure is written before and after the link to it
  have htwice : ∀ (f : ℕ → Node) (a b c : Node),
      Function.update (Function.update (Function.update f h.brk a) x.1 b) h.brk c
        = Function.update (Function.update f x.1 b) h.brk c := by
    intro f a b c
    rw [Function.update_comm hne, Function.update_idem, Function.update_comm hne.symm]
  generalize (h.node x.1).next = next at hnode
  simp [gaClone, calloc, malloc, hnew, haddr, put, setNode, setBlock, hnode, Ent.node, Ent.clone,
    hne, hne.symm, hself, hblock, htwice]

/-- Without memory for it there is no clone. -/
theorem gaClone_fails (ai : ℕ) (hfail : ¬ (env.alloc h.brk ∧ env.alloc (h.brk + 1))) :
    ∃ h', h.gaClone env ai = some (none, h') := by
  cases hnew : env.alloc h.brk with
  | false => exact ⟨_, by simp [gaClone, calloc, malloc, hnew]; rfl⟩
  | true =>
    have haddr : env.alloc (h.brk + 1) = false := by simpa [hnew] using hfail
    exact ⟨_, by simp [gaClone, calloc, malloc, hnew, haddr, setNode]; rfl⟩

/-- A round of the loop that fills in the entry it stands on. -/
theorem fill_round (hc : h.Cell x e) (hport : e.HasPort)
    (hpass : e.pass env port t = [e.fill env port t])
    (hfound : e.found t = inetFamily e.family) :
    ∃ h' ys, (do
        let (k, h) ← h.fill env port t x.1
        some (Next.on (h.node x.1).next k, h))
          = some (.on (h.node x.1).next (if e.found t then 1 else 0), h') ∧
      h'.Lists (some x.1) ys (h.node x.1).next (e.pass env port t) ∧ h.Frame h' [x] ∧
      ∀ y ∈ ys, y = x ∨ h.brk ≤ y.1 ∧ h.brk ≤ y.2 := by
  refine ⟨h.put x (e.fill env port t) (h.node x.1).next, [x], ?_, ?_, put_frame, ?_⟩
  · rw [fill_eq hc hport, hfound]
    simp
  · rw [hpass]
    exact put_lists hc.node_lt hc.block_lt
  · intro y hy
    exact .inl (List.mem_singleton.mp hy)

/-- A round of the loop that clones the entry it stands on. -/
theorem clone_round (hc : h.Cell x e) (hport : e.HasPort) (hclone : hasFlag e.flags aiClone)
    (hused : e.socktype ≠ 0) (hmem : env.alloc h.brk ∧ env.alloc (h.brk + 1)) :
    ∃ h' ys,
      h.visit env port t x.1 = some (.on (h.node x.1).next (if e.found t then 1 else 0), h') ∧
      h'.Lists (some x.1) ys (h.node x.1).next (e.pass env port t) ∧ h.Frame h' [x] ∧
      ∀ y ∈ ys, y = x ∨ h.brk ≤ y.1 ∧ h.brk ≤ y.2 := by
  have hfst : x.1 < h.brk := hc.node_lt
  have hsnd : x.2 < h.brk := hc.block_lt
  have hflags : (h.node x.1).flags = e.flags := congrArg Node.flags hc.node
  have htype : (h.node x.1).socktype = e.socktype := congrArg Node.socktype hc.node
  have hy₁ : h.brk < h.brk + 2 := Nat.lt_add_of_pos_right Nat.two_pos
  have hy₂ : h.brk + 1 < h.brk + 2 := Nat.lt_succ_self _
  refine ⟨({ h with brk := h.brk + 2 }.put x e (some h.brk)).put (h.brk, h.brk + 1)
    (e.clone.fill env port t) (h.node x.1).next, [x, (h.brk, h.brk + 1)], ?_, ?_, ?_, ?_⟩
  · rw [visit, hflags, htype, if_pos hclone, if_pos hused, gaClone_eq hc hmem.1 hmem.2]
    generalize hh₁ : { h with brk := h.brk + 2 }.put x e (some h.brk) = h₁
    have hcell : (h₁.put (h.brk, h.brk + 1) e.clone (h.node x.1).next).Cell
        (h.brk, h.brk + 1) e.clone := by
      subst hh₁
      exact put_cell hy₁ hy₂
    have hfill := @fill_eq env port t _ _ _ hcell hport
    rw [put_put, put_next] at hfill
    have hnext := @put_next h₁ (h.brk, h.brk + 1) (e.clone.fill env port t) (h.node x.1).next
    have hcount : e.found t = inetFamily e.clone.family := by simp [Ent.found, hclone, Ent.clone]
    simp only at hfill hnext
    simp only [Option.bind_eq_bind, Option.bind_some, hfill, hnext, hcount]
  · rw [Ent.pass, if_pos hclone, if_pos hused]
    exact put_put_lists hfst (Nat.lt_succ_of_lt hsnd) hy₁ hy₂
  · have hgrow : h.Frame { h with brk := h.brk + 2 } [] :=
      ⟨fun _ _ _ => rfl, fun _ _ _ => rfl, Nat.le_add_right _ 2⟩
    have hlink : h.Frame ({ h with brk := h.brk + 2 }.put x e (some h.brk)) [x] :=
      hgrow.trans put_frame (List.nil_subset _) fun y hy => .inl hy
    refine hlink.trans put_frame (List.Subset.refl _) ?_
    rintro _ (_ | ⟨_, ⟨⟩⟩)
    exact .inr ⟨Nat.le_refl _, Nat.le_succ _⟩
  · rintro _ (_ | ⟨_, (_ | ⟨_, ⟨⟩⟩)⟩)
    · exact .inl rfl
    · exact .inr ⟨Nat.le_refl _, Nat.le_succ _⟩

/-- **A round of the loop** treats one entry, or runs out of memory. -/
theorem visit_spec (hc : h.Cell x e) (hport : e.HasPort) :
    (∃ h', h.visit env port t x.1 = some (.failed, h') ∧ OutOfMemory env) ∨
    ∃ h' ys,
      h.visit env port t x.1 = some (.on (h.node x.1).next (if e.found t then 1 else 0), h') ∧
      h'.Lists (some x.1) ys (h.node x.1).next (e.pass env port t) ∧ h.Frame h' [x] ∧
      ∀ y ∈ ys, y = x ∨ h.brk ≤ y.1 ∧ h.brk ≤ y.2 := by
  have hflags : (h.node x.1).flags = e.flags := congrArg Node.flags hc.node
  have htype : (h.node x.1).socktype = e.socktype := congrArg Node.socktype hc.node
  by_cases hclone : hasFlag e.flags aiClone
  · by_cases hused : e.socktype ≠ 0
    · by_cases hmem : env.alloc h.brk ∧ env.alloc (h.brk + 1)
      · exact .inr (clone_round hc hport hclone hused hmem)
      · left
        obtain ⟨h', hfail⟩ := gaClone_fails x.1 hmem
        refine ⟨h', ?_, ?_⟩
        · rw [visit, hflags, htype, if_pos hclone, if_pos hused, hfail]
          rfl
        · rcases Decidable.not_and_iff_or_not.mp hmem with hno | hno
          · exact ⟨_, Bool.eq_false_iff.mpr hno⟩
          · exact ⟨_, Bool.eq_false_iff.mpr hno⟩
    · right
      rw [visit, hflags, htype, if_pos hclone, if_neg hused]
      exact fill_round hc hport (by rw [Ent.pass, if_pos hclone, if_neg hused])
        (by simp [Ent.found, hclone])
  · right
    by_cases hother : e.socktype ≠ t
    · refine ⟨h, [x], ?_, ?_, ⟨fun _ _ _ => rfl, fun _ _ _ => rfl, Nat.le_refl _⟩, ?_⟩
      · rw [visit, hflags, htype, if_neg hclone, if_pos hother]
        simp [Ent.found, hclone, hother]
      · rw [Ent.pass, if_neg hclone, if_pos hother]
        exact ⟨⟨rfl, rfl⟩, .cons hc .nil, List.nodup_singleton _⟩
      · intro y hy
        exact .inl (List.mem_singleton.mp hy)
    · rw [visit, hflags, htype, if_neg hclone, if_neg hother]
      exact fill_round hc hport (by rw [Ent.pass, if_neg hclone, if_neg hother])
        (by simp [Ent.found, not_not.mp hother])

/-! ### A pass -/

/-- **A pass over memory ends**, within as many rounds as there are structures at its
start, and treats the entries as `Ent.pass` does, independently of each other. -/
theorem loop_lists (env : Env) (port : UInt16) (t : ℤ) : ∀ (xs : List (ℕ × ℕ)) (es : List Ent)
    (h : Heap) (p : Option ℕ) (nfound : ℤ) (fuel : ℕ), h.Lists p xs none es →
    (∀ e ∈ es, e.HasPort) → xs.length ≤ fuel →
    (∃ h', h.loop env port t fuel p nfound = some (-1, h') ∧ OutOfMemory env) ∨
    ∃ h' ys, h.loop env port t fuel p nfound = some (nfound + es.countP (Ent.found t), h') ∧
      h'.Lists p ys none (es.flatMap (Ent.pass env port t)) ∧ h.Frame h' xs ∧
      ∀ y ∈ ys, y ∈ xs ∨ h.brk ≤ y.1 ∧ h.brk ≤ y.2 := by
  intro xs
  induction xs with
  | nil =>
    intro es h p nfound fuel hl hport hfuel
    obtain rfl : es = [] := List.forall₂_nil_left_iff.mp hl.cells
    obtain rfl : p = none := hl.seg
    refine .inr ⟨h, [], ?_, hl, ⟨fun _ _ _ => rfl, fun _ _ _ => rfl, Nat.le_refl _⟩, ?_⟩
    · cases fuel <;> simp [loop]
    · intro y hy
      cases hy
  | cons x xs ih =>
    intro es h p nfound fuel hl hport hfuel
    obtain ⟨e, es, hc, hcs, rfl⟩ := List.forall₂_cons_left_iff.mp hl.cells
    obtain ⟨rfl, hseg⟩ := hl.seg
    obtain ⟨hsep, hseps⟩ := List.nodup_cons.mp hl.sep
    obtain ⟨hnot, -⟩ := List.nodup_cons.mp (Seg.nodup _ hl.seg)
    obtain ⟨fuel, rfl⟩ : ∃ n, fuel = n + 1 := Nat.exists_eq_add_one.mpr (by simp at hfuel; omega)
    have htail : h.Lists (h.node x.1).next xs none es := ⟨hseg, hcs, hseps⟩
    rcases visit_spec hc (hport e List.mem_cons_self) with
      ⟨h', hfail, hmem⟩ | ⟨h₁, ys, hvisit, hl₁, hf₁, hfresh₁⟩
    · exact .inl ⟨h', by rw [loop, hfail], hmem⟩
    -- the other structures are as they were, and the rest of the loop leaves `ys` alone
    have htail₁ : h₁.Lists (h.node x.1).next xs none es := by
      refine htail.frame hf₁ ?_ ?_
      · intro y hy hmem
        exact hnot (List.mem_singleton.mp hmem ▸ List.mem_map_of_mem hy)
      · intro y hy hmem
        exact hsep (List.mem_singleton.mp hmem ▸ List.mem_map_of_mem hy)
    have hround : h.loop env port t (fuel + 1) (some x.1) nfound
        = h₁.loop env port t fuel (h.node x.1).next
          (nfound + (if e.found t then 1 else 0 : ℕ)) := by
      rw [loop, hvisit]
    rw [hround]
    rcases ih es h₁ (h.node x.1).next _ fuel htail₁
      (fun e he => hport e (List.mem_cons_of_mem _ he)) (Nat.le_of_succ_le_succ hfuel) with
      ⟨h', hfail, hmem⟩ | ⟨h₂, zs, hloop, hl₂, hf₂, hfresh₂⟩
    · exact .inl ⟨h', hfail, hmem⟩
    -- nothing in `ys` is one of the structures that are still to be visited
    have hys : ∀ y ∈ ys, y.1 ∉ xs.map Prod.fst ∧ y.2 ∉ xs.map Prod.snd := by
      intro y hy
      rcases hfresh₁ y hy with rfl | ⟨hge₁, hge₂⟩
      · exact ⟨hnot, hsep⟩
      · constructor
        · intro hmem
          obtain ⟨z, hz, heq⟩ := List.mem_map.mp hmem
          have hlt := (htail.lt hz).1
          omega
        · intro hmem
          obtain ⟨z, hz, heq⟩ := List.mem_map.mp hmem
          have hlt := (htail.lt hz).2
          omega
    refine .inr ⟨h₂, ys ++ zs, ?_, ?_, ?_, ?_⟩
    · rw [hloop, List.countP_cons, Int.natCast_add, Int.add_assoc, Int.add_comm (es.countP _ : ℤ)]
    · rw [List.flatMap_cons]
      refine (hl₁.frame hf₂ (fun y hy => (hys y hy).1) fun y hy => (hys y hy).2).append hl₂ ?_
      intro y hy z hz heq
      rcases hfresh₂ z hz with hmem | ⟨-, hge⟩
      · exact (hys y hy).2 (heq ▸ List.mem_map_of_mem hmem)
      · have hlt := (hl₁.lt hy).2
        omega
    · refine hf₁.trans hf₂ ?_ fun z hz => .inl (List.mem_cons_of_mem x hz)
      intro y hy
      rw [List.mem_singleton.mp hy]
      exact List.mem_cons_self
    · intro y hy
      rcases List.mem_append.mp hy with hy | hy
      · refine (hfresh₁ y hy).imp_left ?_
        rintro rfl
        exact List.mem_cons_self
      · have hbrk := hf₁.brk
        exact (hfresh₂ y hy).imp (List.mem_cons_of_mem x) fun hge => by omega

theorem gaPort_lists (port : UInt16) (t : ℤ) {p : Option ℕ} {xs : List (ℕ × ℕ)} {es : List Ent}
    {fuel : ℕ} (hl : h.Lists p xs none es) (hport : ∀ e ∈ es, e.HasPort)
    (hfuel : es.length ≤ fuel) :
    (∃ h', h.gaPort env fuel p port t = some (-1, h') ∧ OutOfMemory env) ∨
    ∃ h' ys, h.gaPort env fuel p port t = some ((es.countP (Ent.found t) : ℤ), h') ∧
      h'.Lists p ys none (es.flatMap (Ent.pass env port t)) := by
  have hlen : xs.length ≤ fuel := hl.cells.length_eq ▸ hfuel
  rcases loop_lists env port t xs es h p 0 fuel hl hport hlen with hfail | ⟨h', ys, hloop, hl', -⟩
  · exact .inl hfail
  · exact .inr ⟨h', ys, by rw [gaPort, hloop, Int.zero_add], hl'⟩

end Heap

/-! ### The lists of `getaddrinfo` -/

/-- The bytes of a socket address.  `sin6_flowinfo` and `sin6_scope_id` are `0`. -/
def Sockaddr.bytes (env : Env) : Sockaddr → List UInt8
  | in4 port a =>
    shortBytes env 2 ++ (shortBytes env port ++ (addrBytes 4 a.toNat ++ List.replicate 8 0))
  | in6 port a =>
    shortBytes env 10 ++ (shortBytes env port ++
      (List.replicate 4 0 ++ (addrBytes 16 a.toNat ++ List.replicate 4 0)))
  | un path =>
    shortBytes env 1 ++ (path.map fun c => UInt8.ofNat c.toNat).take sunPathSize ++
      List.replicate (sunPathSize - path.length) 0
where
  /-- The `n` bytes of an address, the most significant one first. -/
  addrBytes : ℕ → ℕ → List UInt8
    | 0, _ => []
    | n + 1, a => addrBytes n (a / 256) ++ [UInt8.ofNat a]

/-- An entry as it is in memory. -/
def Addrinfo.ent (env : Env) (ai : Addrinfo) : Ent :=
  ⟨ai.flags, ai.family, ai.socktype, ai.protocol, ai.canonname, ai.addr.bytes env⟩

/-- Filling in a port changes the bytes of the port, which are behind those of the family. -/
theorem Sockaddr.bytes_sockaddr (env : Env) (port : UInt16) (sa : Sockaddr) :
    (sa.addr.sockaddr port).bytes env
      = if inetFamily sa.addr.family then writeAt (sa.bytes env) 2 (shortBytes env port)
        else sa.bytes env := by
  have hover : ∀ (fam p : UInt16) (rest : List UInt8),
      writeAt (shortBytes env fam ++ (shortBytes env p ++ rest)) 2 (shortBytes env port)
        = shortBytes env fam ++ (shortBytes env port ++ rest) := by
    intro fam p rest
    have hat := @writeAt_append _ (shortBytes env p) (shortBytes env fam) (shortBytes env port) rest
      (by rw [length_shortBytes, length_shortBytes])
    rw [length_shortBytes] at hat
    exact hat
  cases sa with
  | in4 p a => exact (hover 2 p _).symm
  | in6 p a => exact (hover 10 p _).symm
  | un path => rfl

theorem Addrinfo.ent_hasPort (env : Env) (ai : Addrinfo) : (ai.ent env).HasPort := by
  unfold Ent.HasPort Addrinfo.ent
  cases hsa : ai.addr with
  | in4 p a => simp [Sockaddr.bytes]; omega
  | in6 p a => simp [Sockaddr.bytes]; omega
  | un path => simp [Sockaddr.bytes, sunPathSize]; omega

section Ent

variable {env : Env} {port : UInt16} {t : ℤ} {ai : Addrinfo}

theorem ent_setPort (hfam : ai.family = ai.addr.addr.family) :
    (ai.setPort port t).ent env = (ai.ent env).fill env port t := by
  simp only [Addrinfo.setPort, Addrinfo.ent, Ent.fill, Sockaddr.bytes_sockaddr, hfam]

/-- A pass does the same to an entry and to what it is in memory. -/
theorem map_ent_portNode (hfam : ai.family = ai.addr.addr.family) :
    (portNode port t ai).map (Addrinfo.ent env) = (ai.ent env).pass env port t := by
  have hfill : (ai.setPort port t).ent env = (ai.ent env).fill env port t := ent_setPort hfam
  have hclone : (({ ai with flags := 0, canonname := none } : Addrinfo).setPort port t).ent env
      = (ai.ent env).clone.fill env port t := ent_setPort hfam
  have hflags : (ai.ent env).flags = ai.flags := rfl
  have htype : (ai.ent env).socktype = ai.socktype := rfl
  unfold portNode Ent.pass
  rw [hflags, htype]
  split
  · split
    · simp only [List.map_cons, List.map_nil, hclone]
    · simp only [List.map_cons, List.map_nil, hfill]
  · split
    · rfl
    · simp only [List.map_cons, List.map_nil, hfill]

theorem found_ent (hfam : ai.family = ai.addr.addr.family) :
    (ai.ent env).found t = portFound t ai := by
  have hport : inetFamily ai.addr.addr.family = ai.hasPort := by
    unfold Addrinfo.hasPort
    cases ai.addr <;> rfl
  simp only [Ent.found, portFound, Addrinfo.ent, hfam, hport]

end Ent

/-- **The pass over memory refines the pass over lists**: whatever the latter returns, the
former ends and leaves the same list and the same number, or it runs out of memory. -/
theorem Heap.gaPort_refines {env : Env} {port : UInt16} {t : ℤ} {h : Heap} {p : Option ℕ}
    {xs : List (ℕ × ℕ)} {ais ais' : List Addrinfo} {nfound n n' fuel : ℕ}
    (hl : h.Lists p xs none (ais.map (Addrinfo.ent env)))
    (hfam : ∀ ai ∈ ais, ai.family = ai.addr.addr.family) (hfuel : ais.length ≤ fuel)
    (hrun : Gai.gaPort env port t ais n = .ok ((ais', nfound), n')) :
    (∃ h', h.gaPort env fuel p port t = some (-1, h') ∧ OutOfMemory env) ∨
    ∃ h' ys, h.gaPort env fuel p port t = some ((nfound : ℤ), h') ∧
      h'.Lists p ys none (ais'.map (Addrinfo.ent env)) := by
  have hres : (ais', nfound) = (ais.flatMap (portNode port t), ais.countP (portFound t)) :=
    (gaPort_post env port t ais).ok hrun
  obtain ⟨rfl, rfl⟩ := Prod.mk.inj hres
  have hport : ∀ e ∈ ais.map (Addrinfo.ent env), e.HasPort := by
    intro e he
    obtain ⟨ai, -, rfl⟩ := List.mem_map.mp he
    exact ai.ent_hasPort env
  have hpass : (ais.map (Addrinfo.ent env)).flatMap (Ent.pass env port t)
      = (ais.flatMap (portNode port t)).map (Addrinfo.ent env) := by
    rw [List.flatMap_map, List.map_flatMap]
    exact List.flatMap_congr fun ai hai => (map_ent_portNode (hfam ai hai)).symm
  have hcount : (ais.map (Addrinfo.ent env)).countP (Ent.found t) = ais.countP (portFound t) := by
    rw [List.countP_map]
    exact List.countP_congr fun ai hai => by rw [Function.comp_apply, found_ent (hfam ai hai)]
  rw [← hpass, ← hcount]
  exact gaPort_lists port t hl hport (by rw [List.length_map]; exact hfuel)

/-- An entry for every socket type. -/
def sampleEntry : Addrinfo := ⟨aiClone, afInet, 0, 0, none, .in4 0 0xc0000201⟩

/-- The entry in a list in memory. -/
def sampleList : Heap :=
  (⟨fun _ => {}, fun _ => [], 2⟩ : Heap).put (0, 1) (sampleEntry.ent sampleEnv) none

theorem Heap.gaPort_refines_stream :
    ∃ h' ys, sampleList.gaPort sampleEnv 1 (some 0) 80 1 = some (1, h') ∧
      h'.Lists (some 0) ys none [(sampleEntry.setPort 80 1).ent sampleEnv] := by
  have hl : sampleList.Lists (some 0) [(0, 1)] none ([sampleEntry].map (Addrinfo.ent sampleEnv)) :=
    put_lists (by decide) (by decide)
  rcases gaPort_refines (n := 0) (t := 1) hl (by decide) (Nat.le_refl 1) rfl with ⟨_, _, n, hn⟩ | h
  · cases hn
  · exact h

/-! ### Any number of socket types -/

namespace Ent

/-- The port of the address of an entry. -/
def port (e : Ent) : List UInt8 := (e.addr.drop 2).take 2

/-- An entry that stands for every socket type, as `ga_aistruct` makes them. -/
structure Fresh (e : Ent) : Prop where
  inet : inetFamily e.family = true
  clone : hasFlag e.flags aiClone = true
  socktype : e.socktype = 0
  hasPort : e.HasPort

/-- What passes for the socket types `ts`, each with its port, make of one entry: the
first type goes to the entry itself, and the clone for the last one is next to it. -/
def group (env : Env) (e : Ent) : List (ℤ × UInt16) → List Ent
  | [] => [e]
  | q :: ts => e.fill env q.2 q.1 :: ts.reverse.map fun r => e.clone.fill env r.2 r.1

/-- The entry `x` is like the entry `e`, but for the socket type and the port. -/
structure Like (e x : Ent) : Prop where
  family : x.family = e.family
  protocol : x.protocol = e.protocol
  length : x.addr.length = e.addr.length
  family_bytes : x.addr.take 2 = e.addr.take 2
  address_bytes : x.addr.drop 4 = e.addr.drop 4

/-- The entries `g` are for the socket types `ts`, one for each, with its port, and are
otherwise like the entry `e`. -/
structure Group (env : Env) (ts : List (ℤ × UInt16)) (e : Ent) (g : List Ent) : Prop where
  once : ts ≠ [] → (g.map fun x => (x.socktype, x.port)).Perm
    (ts.map fun q => (q.1, shortBytes env q.2))
  like : ∀ x ∈ g, e.Like x

variable {env : Env} {e : Ent} {ts : List (ℤ × UInt16)} {t u : ℤ} {port port' : UInt16}

theorem addr_fill (hin : inetFamily e.family) :
    (e.fill env port t).addr = writeAt e.addr 2 (shortBytes env port) := by
  rw [fill, if_pos hin]

/-- Filling in a socket type and a port changes nothing else. -/
theorem like_fill (hin : inetFamily e.family) (hport : e.HasPort) :
    e.Like (e.fill env port t) := by
  have hport' : 2 + (shortBytes env port).length ≤ e.addr.length := by
    rw [length_shortBytes]
    exact hport
  have htwo : 2 ≤ e.addr.length := Nat.le_of_add_right_le hport'
  refine ⟨rfl, rfl, ?_, ?_, ?_⟩
  · rw [addr_fill hin, length_writeAt hport']
  · rw [addr_fill hin, take_writeAt_self htwo]
  · have hdrop := @drop_writeAt_self _ e.addr (shortBytes env port) 2 htwo
    rw [addr_fill hin, show 4 = 2 + 2 from rfl, ← List.drop_drop, hdrop,
      List.drop_left' (length_shortBytes env port), length_shortBytes]

theorem port_fill (hin : inetFamily e.family) (hport : e.HasPort) :
    (e.fill env port t).port = shortBytes env port := by
  have htwo : 2 ≤ e.addr.length := Nat.le_trans (by decide) hport
  rw [Ent.port, addr_fill hin, drop_writeAt_self htwo,
    List.take_left' (length_shortBytes env port)]

/-- The port that is filled in last counts. -/
theorem clone_fill_fill (hin : inetFamily e.family) (hport : e.HasPort) :
    (e.fill env port t).clone.fill env port' u = e.clone.fill env port' u := by
  have hover : writeAt (writeAt e.addr 2 (shortBytes env port)) 2 (shortBytes env port')
      = writeAt e.addr 2 (shortBytes env port') :=
    writeAt_writeAt (by rw [length_shortBytes]; exact hport) (by simp)
  simp only [Ent.fill, Ent.clone, hin, if_true, hover]

/-- **The entries made for the socket types are one for each.** -/
theorem group_group (hin : inetFamily e.family) (hport : e.HasPort) (ts : List (ℤ × UInt16)) :
    Group env ts e (group env e ts) := by
  cases ts with
  | nil =>
    refine ⟨fun hne => absurd rfl hne, fun x hx => ?_⟩
    rw [List.mem_singleton.mp hx]
    exact ⟨rfl, rfl, rfl, rfl, rfl⟩
  | cons q ts =>
    constructor
    · intro _
      have hfill : ∀ r : ℤ × UInt16, (e.fill env r.2 r.1).port = shortBytes env r.2 :=
        fun r => port_fill hin hport
      have hclone : ∀ r : ℤ × UInt16, (e.clone.fill env r.2 r.1).port = shortBytes env r.2 :=
        fun r => @port_fill env e.clone r.1 r.2 hin hport
      rw [group, List.map_cons, List.map_cons, List.map_map, hfill q]
      refine List.Perm.cons _ ?_
      rw [List.map_congr_left (g := fun r => (r.1, shortBytes env r.2)) fun r _ => by
        rw [Function.comp_apply, hclone r]; rfl]
      exact (List.reverse_perm ts).map _
    · intro x hx
      rcases List.mem_cons.mp hx with rfl | hx
      · exact like_fill hin hport
      · obtain ⟨r, -, rfl⟩ := List.mem_map.mp hx
        have hlike : e.clone.Like (e.clone.fill env r.2 r.1) := like_fill hin hport
        exact { hlike with }

/-- A further pass: the entry itself is cloned, and its clones are passed over. -/
theorem Fresh.pass_group (he : e.Fresh) (hts : ∀ q ∈ ts, q.1 ≠ 0 ∧ q.1 ≠ t) :
    (group env e ts).flatMap (pass env port t) = group env e (ts ++ [(t, port)]) := by
  cases ts with
  | nil => simp [group, pass, he.clone, he.socktype]
  | cons q ts =>
    have hfirst : (e.fill env q.2 q.1).pass env port t
        = [e.fill env q.2 q.1, e.clone.fill env port t] := by
      have hnz : (e.fill env q.2 q.1).socktype ≠ 0 := (hts q List.mem_cons_self).1
      have hflag : hasFlag (e.fill env q.2 q.1).flags aiClone = true := he.clone
      rw [pass, if_pos hflag, if_pos hnz, clone_fill_fill he.inet he.hasPort]
    have hrest : (ts.reverse.map fun r => e.clone.fill env r.2 r.1).flatMap (pass env port t)
        = ts.reverse.map fun r => e.clone.fill env r.2 r.1 := by
      rw [List.flatMap_map, List.map_eq_flatMap]
      refine List.flatMap_congr fun r hr => ?_
      have hother : (e.clone.fill env r.2 r.1).socktype ≠ t :=
        (hts r (List.mem_cons_of_mem q (List.mem_reverse.mp hr))).2
      have hflag : ¬ hasFlag (e.clone.fill env r.2 r.1).flags aiClone = true := by
        show ¬ hasFlag 0 aiClone = true
        decide
      rw [pass, if_neg hflag, if_pos hother]
    change _ = group env e (q :: (ts ++ [(t, port)]))
    rw [group, List.flatMap_cons, hfirst, hrest, group, List.reverse_append]
    rfl

/-- A further pass finds the entry once. -/
theorem Fresh.countP_group (he : e.Fresh) (hts : ∀ q ∈ ts, q.1 ≠ t) :
    (group env e ts).countP (found t) = 1 := by
  cases ts with
  | nil => simp [group, found, he.clone, he.inet]
  | cons q ts =>
    have hfirst : found t (e.fill env q.2 q.1) = true := by
      simp [found, fill, he.clone, he.inet]
    have hrest : (ts.reverse.map fun r => e.clone.fill env r.2 r.1).countP (found t) = 0 := by
      rw [List.countP_eq_zero]
      intro x hx
      obtain ⟨r, hr, rfl⟩ := List.mem_map.mp hx
      have hother : r.1 ≠ t := hts r (List.mem_cons_of_mem q (List.mem_reverse.mp hr))
      simp [found, fill, Ent.clone, hother, hasFlag]
    rw [group, List.countP_cons_of_pos hfirst, hrest]

end Ent

namespace Heap

/-- Successive calls of `ga_port`, until one of them fails: what they return. -/
def gaPorts (env : Env) (fuel : ℕ) (aihead : Option ℕ) :
    List (ℤ × UInt16) → Heap → Option (List ℤ × Heap)
  | [], h => some ([], h)
  | (socktype, port) :: ts, h =>
    match h.gaPort env fuel aihead port socktype with
    | none => none
    | some (n, h) =>
      if n < 0 then some ([n], h)
      else (gaPorts env fuel aihead ts h).map fun r => (n :: r.1, r.2)

variable {env : Env} {p : Option ℕ} {es : List Ent} {fuel : ℕ}

theorem length_flatMap_group (env : Env) (es : List Ent) (ts : List (ℤ × UInt16)) :
    (es.flatMap (Ent.group env · ts)).length ≤ es.length * (ts.length + 1) := by
  induction es with
  | nil => exact Nat.zero_le _
  | cons e es ih =>
    have hone : (Ent.group env e ts).length ≤ ts.length + 1 := by
      cases ts <;> simp [Ent.group]
    rw [List.flatMap_cons, List.length_append, List.length_cons, Nat.succ_mul]
    omega

theorem countP_flatMap_group {us : List (ℤ × UInt16)} {t : ℤ} (hus : ∀ q ∈ us, q.1 ≠ t) :
    ∀ (es : List Ent), (∀ e ∈ es, e.Fresh) →
      (es.flatMap (Ent.group env · us)).countP (Ent.found t) = es.length := by
  intro es
  induction es with
  | nil => intro _; rfl
  | cons e es ih =>
    intro hes
    rw [List.flatMap_cons, List.countP_append, (hes e List.mem_cons_self).countP_group hus,
      ih fun e he => hes e (List.mem_cons_of_mem _ he), List.length_cons, Nat.add_comm]

/-- The calls that are still to be made, after those for the socket types `us`. -/
theorem gaPorts_from (hes : ∀ e ∈ es, e.Fresh) : ∀ (ts us : List (ℤ × UInt16)) (h : Heap)
    (xs : List (ℕ × ℕ)), h.Lists p xs none (es.flatMap (Ent.group env · us)) →
    ((us ++ ts).map Prod.fst).Nodup → (∀ q ∈ us ++ ts, q.1 ≠ 0) →
    es.length * (us.length + ts.length + 1) ≤ fuel →
    (∃ ns h', h.gaPorts env fuel p ts = some (ns ++ [-1], h') ∧ OutOfMemory env) ∨
    ∃ h' ys, h.gaPorts env fuel p ts = some (List.replicate ts.length (es.length : ℤ), h') ∧
      h'.Lists p ys none (es.flatMap (Ent.group env · (us ++ ts))) := by
  intro ts
  induction ts with
  | nil =>
    intro us h xs hl _ _ _
    exact .inr ⟨h, xs, rfl, by rw [List.append_nil]; exact hl⟩
  | cons q ts ih =>
    obtain ⟨t, port⟩ := q
    intro us h xs hl hnodup hnz hfuel
    have hus : ∀ r ∈ us, r.1 ≠ 0 ∧ r.1 ≠ t := by
      intro r hr
      refine ⟨hnz r (List.mem_append_left _ hr), ?_⟩
      rw [List.map_append, List.nodup_append] at hnodup
      exact hnodup.2.2 r.1 (List.mem_map_of_mem hr) t List.mem_cons_self
    have hport : ∀ x ∈ es.flatMap (Ent.group env · us), x.HasPort := by
      intro x hx
      obtain ⟨e, he, hx⟩ := List.mem_flatMap.mp hx
      have hfresh := hes e he
      have hlike := (Ent.group_group hfresh.inet hfresh.hasPort us).like x hx
      rw [Ent.HasPort, hlike.length]
      exact hfresh.hasPort
    have hlen : (es.flatMap (Ent.group env · us)).length ≤ fuel := by
      refine (length_flatMap_group env es us).trans (Nat.le_trans ?_ hfuel)
      exact Nat.mul_le_mul_left _ (by omega)
    have hpass : (es.flatMap (Ent.group env · us)).flatMap (Ent.pass env port t)
        = es.flatMap (Ent.group env · (us ++ [(t, port)])) := by
      rw [List.flatMap_assoc]
      exact List.flatMap_congr fun e he => (hes e he).pass_group hus
    have happ : us ++ (t, port) :: ts = (us ++ [(t, port)]) ++ ts := by simp
    have hcount :
        us.length + ((t, port) :: ts).length = (us ++ [(t, port)]).length + ts.length := by
      rw [← List.length_append, happ, List.length_append]
    rcases gaPort_lists port t hl hport hlen with ⟨h', hfail, hmem⟩ | ⟨h₁, ys, hcall, hl₁⟩
    · exact .inl ⟨[], h', by simp [gaPorts, hfail], hmem⟩
    rw [countP_flatMap_group (fun r hr => (hus r hr).2) es hes] at hcall
    rw [hpass] at hl₁
    have hrest : h.gaPorts env fuel p ((t, port) :: ts)
        = (h₁.gaPorts env fuel p ts).map fun r => ((es.length : ℤ) :: r.1, r.2) := by
      simp only [gaPorts, hcall]
      rw [if_neg (by omega)]
    rw [hrest]
    rcases ih (us ++ [(t, port)]) h₁ ys hl₁ (by rw [← happ]; exact hnodup)
      (by rw [← happ]; exact hnz) (by rw [← hcount]; exact hfuel) with
      ⟨ns, h', hfail, hmem⟩ | ⟨h', zs, hcalls, hl'⟩
    · exact .inl ⟨(es.length : ℤ) :: ns, h', by rw [hfail]; rfl, hmem⟩
    · exact .inr ⟨h', zs, by rw [hcalls]; rfl, by rw [happ]; exact hl'⟩

/-- **Any number of socket types.**  Let `ga_port` be called for pairwise distinct nonzero
socket types, one after the other, on a list of entries that stand for every socket
type.  Every call ends.  Unless memory runs out, each returns the number of entries
there were at first, and the list is then made up of a group for each of them, in their
order: one entry for each socket type, with its port, and otherwise like the first. -/
theorem gaPorts_groups (env : Env) (h : Heap) (aihead : Option ℕ) (xs : List (ℕ × ℕ))
    (es : List Ent) (ts : List (ℤ × UInt16)) (hl : h.Lists aihead xs none es)
    (hes : ∀ e ∈ es, e.Fresh) (hdistinct : (ts.map Prod.fst).Nodup) (hnz : ∀ q ∈ ts, q.1 ≠ 0)
    (fuel : ℕ) (hfuel : es.length * (ts.length + 1) ≤ fuel) :
    (∃ ns h', h.gaPorts env fuel aihead ts = some (ns ++ [-1], h') ∧ OutOfMemory env) ∨
    ∃ h' ys groups,
      h.gaPorts env fuel aihead ts = some (List.replicate ts.length (es.length : ℤ), h') ∧
      h'.Lists aihead ys none groups.flatten ∧ List.Forall₂ (Ent.Group env ts) es groups := by
  have hstart : es.flatMap (Ent.group env · []) = es := by simp [Ent.group]
  rcases gaPorts_from hes ts [] h xs (by rw [hstart]; exact hl) hdistinct hnz
    (by simpa using hfuel) with hfail | ⟨h', ys, hcalls, hl'⟩
  · exact .inl hfail
  · refine .inr ⟨h', ys, es.map (Ent.group env · ts), hcalls, ?_, ?_⟩
    · rw [← List.flatMap_def]
      exact hl'
    · rw [List.forall₂_map_right_iff, List.forall₂_same]
      exact fun e he => Ent.group_group (hes e he).inet (hes e he).hasPort ts

/-- An IPv4 and an IPv6 entry, in a list in memory. -/
def sampleHeap : Heap where
  node
    | 0 => (⟨aiClone, afInet, 0, 0, none, List.replicate 16 7⟩ : Ent).node 1 (some 2)
    | 2 => (⟨aiClone, afInet6, 0, 0, none, List.replicate 28 9⟩ : Ent).node 3 none
    | _ => {}
  block
    | 1 => List.replicate 16 7
    | 3 => List.replicate 28 9
    | _ => []
  brk := 4

theorem gaPorts_groups_three : ∃ h' ys groups,
    sampleHeap.gaPorts sampleEnv 8 (some 0) [(1, 80), (2, 81), (3, 82)] = some ([2, 2, 2], h') ∧
      h'.Lists (some 0) ys none groups.flatten ∧
      List.Forall₂ (Ent.Group sampleEnv [(1, 80), (2, 81), (3, 82)])
        [⟨aiClone, afInet, 0, 0, none, List.replicate 16 7⟩,
          ⟨aiClone, afInet6, 0, 0, none, List.replicate 28 9⟩] groups := by
  have hl : sampleHeap.Lists (some 0) [(0, 1), (2, 3)] none
      [⟨aiClone, afInet, 0, 0, none, List.replicate 16 7⟩,
        ⟨aiClone, afInet6, 0, 0, none, List.replicate 28 9⟩] :=
    ⟨⟨rfl, rfl, rfl⟩, .cons ⟨rfl, rfl, by decide, by decide⟩
      (.cons ⟨rfl, rfl, by decide, by decide⟩ .nil), by decide⟩
  have hes : ∀ e ∈ ([⟨aiClone, afInet, 0, 0, none, List.replicate 16 7⟩,
      ⟨aiClone, afInet6, 0, 0, none, List.replicate 28 9⟩] : List Ent), e.Fresh := by
    rintro _ (_ | ⟨_, (_ | ⟨_, ⟨⟩⟩)⟩)
    · exact ⟨by decide, by decide, rfl, by unfold Ent.HasPort; decide⟩
    · exact ⟨by decide, by decide, rfl, by unfold Ent.HasPort; decide⟩
  rcases gaPorts_groups sampleEnv sampleHeap (some 0) _ _ [(1, 80), (2, 81), (3, 82)] hl hes
    (by decide) (by decide) 8 (by decide) with ⟨_, _, _, n, hn⟩ | hgroups
  · cases hn
  · exact hgroups

end Heap

end TcpIp.Gai
