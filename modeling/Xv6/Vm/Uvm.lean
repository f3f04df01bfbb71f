import Xv6.Vm.Kalloc

/-!
# `kernel/vm.c`: user address spaces

Loops over the pages of a range recurse on the number of pages left. Addresses below `MAXVA` plus a
page do not wrap in 64 bits, so address arithmetic is that of the natural numbers; where a sum can
wrap, the caller reduces it.
-/

namespace Xv6

variable {D : Type}

/-! ## Walking and mapping -/

/-- Hang a fresh table page at level 1 of `pt`. -/
def Kernel.linkMid (k : Kernel D) (pt : Nat) (i₂ : Fin 512) (pa : Nat) : Kernel D :=
  k.setTables (k.tables.linkMid pt i₂ pa)

/-- Hang a fresh table page at level 0 of `pt`. -/
def Kernel.linkLeaf (k : Kernel D) (pt : Nat) (i₂ i₁ : Fin 512) (pa : Nat) : Kernel D :=
  k.setTables (k.tables.linkLeaf pt i₂ i₁ pa)

/-- The turn of `walk(pagetable, va, 1)` at level 2; `false` when no page could be had. -/
def walkMid [SwapStore D] (me : ProcId) (pt : Nat) (v : Vpn) : KM D Bool := do
  let k ← get
  if (k.tables.midPage pt v.i₂).isSome then return true
  let page ← kalloc me
  if page = 0 then return false
  modify fun k => k.linkMid pt v.i₂ page
  return true

/-- The turn of `walk(pagetable, va, 1)` at level 1. -/
def walkLeaf [SwapStore D] (me : ProcId) (pt : Nat) (v : Vpn) : KM D Bool := do
  let k ← get
  if (k.tables.leafPage pt v.i₂ v.i₁).isSome then return true
  let page ← kalloc me
  if page = 0 then return false
  modify fun k => k.linkLeaf pt v.i₂ v.i₁ page
  return true

/-- `walk(pagetable, va, 1)`. -/
def walkAlloc [SwapStore D] (me : ProcId) (pt va : Nat) : KM D (Option PtePtr) := do
  if maxva ≤ va then throw .walk
  if ← walkMid me pt (vpn va) then
    if ← walkLeaf me pt (vpn va) then return some ⟨pt, vpn va⟩
    else return none
  else return none

def walkaddr (pt va : Nat) : KM D Nat := do
  if maxva ≤ va then return 0
  match ← walk pt va with
  | none => return 0
  | some pte =>
    let e ← deref pte
    if e.getLsbD pteV = false then return 0
    if e.getLsbD pteU = false then return 0
    return pte2pa e

/-- The loop of `mappages`, with `n` pages to go after this one. -/
def mappagesLoop [SwapStore D] (me : ProcId) (pt : Nat) (perm : Pte) : Nat → Nat → Nat → KM D Int
  | n, a, pa => do
    match ← walkAlloc me pt a with
    | none => return -1
    | some pte =>
      let e ← deref pte
      if e.getLsbD pteV then throw .mappagesRemap
      assign pte (mapEntry pa perm)
      match n with
      | 0 => return 0
      | n + 1 => mappagesLoop me pt perm n (a + pgsize) (pa + pgsize)

def mappages [SwapStore D] (me : ProcId) (pt va size pa : Nat) (perm : Pte) : KM D Int := do
  if va % pgsize ≠ 0 then throw .mappagesVa
  if size % pgsize ≠ 0 then throw .mappagesSizeAligned
  if size = 0 then throw .mappagesSize
  mappagesLoop me pt perm (size / pgsize - 1) va pa

/-- `uvmcreate`: a page table with nothing in it, or `0`. -/
def uvmcreate [SwapStore D] (me : ProcId) : KM D Nat := do
  let pt ← kalloc me
  if pt = 0 then return 0
  modify fun k => k.setTables (Function.update k.tables pt (some .empty))
  return pt

/-! ## Unmapping -/

/-- What the loop of `uvmunmap` does with a page that has a leaf table. -/
def uvmunmapPage [SwapStore D] (pte : PtePtr) (doFree : Bool) : KM D Unit := do
  let e ← deref pte
  if e.getLsbD pteV = false ∧ e.getLsbD pteS = true then
    swapFree (swapIdx e)
    assign pte 0
  else
    -- also reached by an entry that is neither valid nor swapped out
    if doFree then
      let pa := pte2pa e
      frametablefree pa
      kfree pa
    assign pte 0

/-- The body of the loop of `uvmunmap`. -/
def uvmunmapTurn [SwapStore D] (pt : Nat) (doFree : Bool) (a : Nat) : KM D Unit := do
  match ← walk pt a with
  | none => return ()
  | some pte => uvmunmapPage pte doFree

/-- The loop of `uvmunmap`, with `n` pages left. -/
def uvmunmapLoop [SwapStore D] (pt : Nat) (doFree : Bool) : Nat → Nat → KM D Unit
  | 0, _ => return ()
  | n + 1, a => do
    uvmunmapTurn pt doFree a
    uvmunmapLoop pt doFree n (a + pgsize)

def uvmunmap [SwapStore D] (pt va npages : Nat) (doFree : Bool) : KM D Unit := do
  if va % pgsize ≠ 0 then throw .uvmunmap
  uvmunmapLoop pt doFree npages va

def uvmdealloc [SwapStore D] (pt oldsz newsz : Nat) : KM D Nat := do
  if oldsz ≤ newsz then return oldsz
  if pgroundup newsz < pgroundup oldsz then
    uvmunmap pt (pgroundup newsz) ((pgroundup oldsz - pgroundup newsz) / pgsize) true
  return newsz

/-! ## Freeing a page table -/

/-- What `freewalk` does with an entry of a level-0 table: a valid one would be a leaf, or, without
permissions, would be followed as if it were a table. -/
def freewalkEntry (e : Pte) : KM D Unit :=
  if e.getLsbD pteV then
    if e.getLsbD pteR = false ∧ e.getLsbD pteW = false ∧ e.getLsbD pteX = false then
      throw .kerneltrap
    else throw .freewalkLeaf
  else pure ()

/-- Free the level-0 table under `i₂`, `i₁`. -/
def freewalkLeaf (pt : Nat) (i₂ i₁ : Fin 512) (l : LeafTable) : KM D Unit := do
  tableSlots.forM fun i₀ => freewalkEntry (l.pte i₀)
  kfree l.page
  modify fun k => k.setTables (k.tables.unlinkLeaf pt i₂ i₁)

/-- Free the level-1 table under `i₂` and all below it. -/
def freewalkMid (pt : Nat) (i₂ : Fin 512) (m : MidTable) : KM D Unit := do
  tableSlots.forM fun i₁ =>
    match m.next i₁ with
    | none => pure ()
    | some l => freewalkLeaf pt i₂ i₁ l
  kfree m.page
  modify fun k => k.setTables (k.tables.unlinkMid pt i₂)

def freewalk (pt : Nat) : KM D Unit := do
  let k ← get
  match k.tables pt with
  | none => throw .kerneltrap
  | some t =>
    tableSlots.forM fun i₂ =>
      match t.next i₂ with
      | none => pure ()
      | some m => freewalkMid pt i₂ m
    kfree pt
    modify fun k => k.setTables (Function.update k.tables pt none)

def uvmfree [SwapStore D] (pt sz : Nat) : KM D Unit := do
  if 0 < sz then uvmunmap pt 0 (pgroundup sz / pgsize) true
  freewalk pt

/-! ## Growing -/

/-- The loop of `uvmalloc`, with `n` pages left. -/
def uvmallocLoop [SwapStore D] (me : ProcId) (pt oldsz newsz : Nat) (xperm : Pte) :
    Nat → Nat → KM D Nat
  | 0, _ => return newsz
  | n + 1, a => do
    let mem ← getFrame me
    if mem = 0 then
      let _ ← uvmdealloc pt a oldsz
      return 0
    modify fun k => k.setMem mem (junk 0)
    if (← mappages me pt a pgsize mem (bit pteR ||| bit pteU ||| xperm)) ≠ 0 then
      kfree mem
      let _ ← uvmdealloc pt a oldsz
      return 0
    frametableAlloc me mem me a
    uvmallocLoop me pt oldsz newsz xperm n (a + pgsize)

/-- `uvmalloc`: the new size, or `0`. -/
def uvmalloc [SwapStore D] (me : ProcId) (pt oldsz newsz : Nat) (xperm : Pte) : KM D Nat := do
  if newsz < oldsz then return oldsz
  let oldsz := pgroundup oldsz
  uvmallocLoop me pt oldsz newsz xperm ((pgroundup newsz - oldsz) / pgsize) oldsz

/-! ## Page faults -/

def ismapped (pt va : Nat) : KM D Bool := do
  match ← walk pt va with
  | none => return false
  | some pte => return (← deref pte).getLsbD pteV

/-- `p->pages_swapped_in++`. -/
def Proc.countRestored (q : Proc) : Proc := { q with pagesSwappedIn := q.pagesSwappedIn + 1 }

/-- `p->page_faults++`. -/
def Proc.countFault (q : Proc) : Proc := { q with pageFaults := q.pageFaults + 1 }

/-- `vmfault` on a page that was swapped out. -/
def vmfaultSwapped [SwapStore D] (me : ProcId) (pte : PtePtr) (va : Nat) : KM D Nat := do
  let idx := swapIdx (← deref pte)
  let pa ← getFrame me
  if pa = 0 then throw .oomVmfault
  swapin me pa idx
  assign pte (swapInEntry pa (← deref pte))
  modify fun k => k.updProc me Proc.countRestored
  frametableAlloc me pa me va
  return pa

/-- `vmfault` on a page that was never allocated. -/
def vmfaultLazy [SwapStore D] (me : ProcId) (va : Nat) : KM D Nat := do
  let mem ← getFrame me
  if mem = 0 then return 0
  modify fun k => k.setMem mem (junk 0)
  let pt := ((← get).proc me).pagetable
  if (← mappages me pt va pgsize mem (bit pteW ||| bit pteU ||| bit pteR)) ≠ 0 then
    kfree mem
    return 0
  frametableAlloc me mem me va
  return mem

/-- `vmfault`: the frame now mapped, or `0`. The argument `read` of the source is not used. -/
def vmfault [SwapStore D] (me : ProcId) (pt va : Nat) : KM D Nat := do
  let k ← get
  if maxva ≤ va ∨ (k.proc me).sz ≤ va then return 0
  let pte ← walk pt va
  let va := pgrounddown va
  if ← ismapped pt va then return 0
  modify fun k => k.updProc me Proc.countFault
  match pte with
  | none => vmfaultLazy me va
  | some pte =>
    if (← deref pte).getLsbD pteS then vmfaultSwapped me pte va
    else vmfaultLazy me va

/-! ## Copying an address space -/

/-- The label `err` of `uvmcopy`. -/
def uvmcopyErr [SwapStore D] (new i : Nat) : KM D Int := do
  uvmunmap new 0 (i / pgsize) true
  return -1

/-- Bringing page `i` with entry `e` into memory if it was swapped out; `false` for `goto err`. -/
def uvmcopyFetch [SwapStore D] (me : ProcId) (old i : Nat) (e : Pte) : KM D Bool := do
  if e.getLsbD pteV then return true
  let pa ← vmfault me old i
  return pa != 0

/-- Copying the resident page behind `pte` to page `i` of `new`; `false` for `goto err`. -/
def uvmcopyPage [SwapStore D] (me : ProcId) (pte : PtePtr) (new i : Nat) (child : ProcId) :
    KM D Bool := do
  let e ← deref pte
  let pa := pte2pa e
  let flags := pteFlags e
  let mem ← getFrame me
  if mem = 0 then return false
  modify fun k => k.setMem mem (k.mem pa)
  if (← mappages me new i pgsize mem flags) ≠ 0 then
    kfree mem
    return false
  frametableAlloc me mem child i
  return true

/-- The loop of `uvmcopy`, with `n` pages left. -/
def uvmcopyLoop [SwapStore D] (me : ProcId) (old new : Nat) (child : ProcId) : Nat → Nat → KM D Int
  | 0, _ => return 0
  | n + 1, i => do
    match ← walk old i with
    | none => uvmcopyLoop me old new child n (i + pgsize)
    | some pte =>
      let e ← deref pte
      if e.getLsbD pteV = false ∧ e.getLsbD pteS = false then
        uvmcopyLoop me old new child n (i + pgsize)
      else
        let present ← uvmcopyFetch me old i e
        let copied ← if present then uvmcopyPage me pte new i child else pure false
        if copied then uvmcopyLoop me old new child n (i + pgsize) else uvmcopyErr new i

def uvmcopy [SwapStore D] (me : ProcId) (old new sz : Nat) (child : ProcId) : KM D Int :=
  uvmcopyLoop me old new child (pgroundup sz / pgsize) 0

/-! ## Kernel copies -/

def uvmclear (pt va : Nat) : KM D Unit := do
  match ← walk pt va with
  | none => throw .uvmclear
  | some pte => assign pte ((← deref pte) &&& ~~~ bit pteU)

/-- The offset of an address in its page. -/
def pageOffset (va : Nat) : Fin pgsize := ⟨va % pgsize, Nat.mod_lt _ (by decide)⟩

/-- `memmove` of `bytes` to offset `off` of a page. -/
def writeBytes (page : Page) (off : Nat) (bytes : List UInt8) : Page := fun o =>
  if h : off ≤ o.val ∧ o.val - off < bytes.length then bytes.get ⟨o.val - off, h.2⟩ else page o

/-- The loop of `copyout`. Each turn but the first starts at a page boundary, so at most
`len / PGSIZE + 2` turns are needed. -/
def copyoutLoop [SwapStore D] (me : ProcId) (pt : Nat) : Nat → Nat → List UInt8 → KM D Int
  | _, _, [] => return 0
  | 0, _, _ :: _ => throw .kerneltrap
  | n + 1, dstva, b :: bs => do
    let src := b :: bs
    let va₀ := pgrounddown dstva
    if maxva ≤ va₀ then return -1
    let pa₀ ← walkaddr pt va₀
    let pa₀ ← if pa₀ = 0 then vmfault me pt va₀ else pure pa₀
    if pa₀ = 0 then return -1
    match ← walk pt va₀ with
    | none => throw .kerneltrap
    | some pte =>
      if (← deref pte).getLsbD pteW = false then return -1
      let n₀ := min (pgsize - (dstva - va₀)) src.length
      modify fun k => k.setMem pa₀ (writeBytes (k.mem pa₀) (dstva - va₀) (src.take n₀))
      copyoutLoop me pt n (va₀ + pgsize) (src.drop n₀)

def copyout [SwapStore D] (me : ProcId) (pt dstva : Nat) (src : List UInt8) : KM D Int :=
  copyoutLoop me pt (src.length / pgsize + 2) dstva src

/-- `memmove` of `n` bytes from offset `off` of a page. -/
def readBytes (page : Page) (off n : Nat) : List UInt8 :=
  (List.range n).map fun i => page (pageOffset (off + i))

/-- The loop of `copyin`, with the bytes copied to `dst`. -/
def copyinLoop [SwapStore D] (me : ProcId) (pt : Nat) : Nat → Nat → Nat → KM D (Int × List UInt8)
  | _, _, 0 => return (0, [])
  | 0, _, _ + 1 => throw .kerneltrap
  | n + 1, srcva, len + 1 => do
    let va₀ := pgrounddown srcva
    let pa₀ ← walkaddr pt va₀
    let pa₀ ← if pa₀ = 0 then vmfault me pt va₀ else pure pa₀
    if pa₀ = 0 then return (-1, [])
    let n₀ := min (pgsize - (srcva - va₀)) (len + 1)
    let bytes := readBytes ((← get).mem pa₀) (srcva - va₀) n₀
    let (ret, rest) ← copyinLoop me pt n (va₀ + pgsize) (len + 1 - n₀)
    return (ret, bytes ++ rest)

/-- `copyin`: its result and the bytes it wrote to `dst`. -/
def copyin [SwapStore D] (me : ProcId) (pt srcva len : Nat) : KM D (Int × List UInt8) :=
  copyinLoop me pt (len / pgsize + 2) srcva len

/-- The inner loop of `copyinstr`, with `n` bytes of the page left: the bytes copied, and `got_null`. -/
def copyinstrScan (page : Page) : Nat → Nat → List UInt8 × Bool
  | 0, _ => ([], false)
  | n + 1, off =>
    let c := page (pageOffset off)
    if c = 0 then ([0], true)
    else
      let (bytes, gotNull) := copyinstrScan page n (off + 1)
      (c :: bytes, gotNull)

/-- The outer loop of `copyinstr`, with the bytes copied to `dst`. Each turn takes a byte at least, so
`max` turns are enough. -/
def copyinstrLoop (pt : Nat) : Nat → Nat → Nat → KM D (Int × List UInt8)
  | 0, _, _ => return (-1, [])
  | n + 1, srcva, max => do
    if max = 0 then return (-1, [])
    let va₀ := pgrounddown srcva
    let pa₀ ← walkaddr pt va₀
    -- unlike `copyin`, no fault is taken here
    if pa₀ = 0 then return (-1, [])
    let n₀ := min (pgsize - (srcva - va₀)) max
    let (bytes, gotNull) := copyinstrScan ((← get).mem pa₀) n₀ (srcva - va₀)
    if gotNull then return (0, bytes)
    let (ret, rest) ← copyinstrLoop pt n (va₀ + pgsize) (max - n₀)
    return (ret, bytes ++ rest)

/-- `copyinstr`: its result and the bytes it wrote to `dst`. -/
def copyinstr (pt srcva max : Nat) : KM D (Int × List UInt8) := copyinstrLoop pt max srcva max

/-! ## Loops by turns -/

section Turns

variable [SwapStore D] {me child : ProcId} {pt lo newsz old new i : Nat} {xperm : Pte}

/-- A turn of the loop of `uvmalloc`, without what follows it: whether there was memory. -/
def growPage (me : ProcId) (pt a : Nat) (xperm : Pte) : KM D Bool := do
  let mem ← getFrame me
  if mem = 0 then return false
  modify fun k => k.setMem mem (junk 0)
  if (← mappages me pt a pgsize mem (bit pteR ||| bit pteU ||| xperm)) ≠ 0 then
    kfree mem
    return false
  frametableAlloc me mem me a
  return true

/-- What follows a turn, at each of its ends. -/
theorem growPage_bind {α : Type} (a : Nat) (f : Bool → KM D α) : growPage me pt a xperm >>= f = (do
      let mem ← getFrame me
      if mem = 0 then f false
      else
        modify fun k => k.setMem mem (junk 0)
        if (← mappages me pt a pgsize mem (bit pteR ||| bit pteU ||| xperm)) ≠ 0 then
          kfree mem
          f false
        else
          frametableAlloc me mem me a
          f true) := by
  have hend : ∀ (x : KM D Unit) (ok : Bool), ((do x; return ok) >>= f) = (do x; f ok) := by
    intro x ok
    rw [TraceM.bind_assoc]
    congr 1
    funext _
    rw [TraceM.pure_bind]
  rw [growPage, TraceM.bind_assoc]
  congr 1
  funext mem
  split
  · rw [TraceM.pure_bind]
  · rw [TraceM.bind_assoc]
    congr 1
    funext _
    rw [TraceM.bind_assoc]
    congr 1
    funext res
    split
    · exact hend ..
    · exact hend ..

theorem uvmallocLoop_succ (n a : Nat) : uvmallocLoop (D := D) me pt lo newsz xperm (n + 1) a =
    growPage me pt a xperm >>= fun ok => if ok then uvmallocLoop me pt lo newsz xperm n (a + pgsize) else do
      let _ ← uvmdealloc pt a lo
      return 0 := by
  rw [growPage_bind]
  rfl

/-- One turn of the loop of `uvmcopy`; `false` for `goto err`. -/
def uvmcopyTurn (me : ProcId) (old new i : Nat) (child : ProcId) : KM D Bool := do
  match ← walk old i with
  | none => return true
  | some pte =>
    let e ← deref pte
    if e.getLsbD pteV = false ∧ e.getLsbD pteS = false then return true
    else if ← uvmcopyFetch me old i e then uvmcopyPage me pte new i child else return false

theorem uvmcopyLoop_succ (n : Nat) : uvmcopyLoop (D := D) me old new child (n + 1) i =
    uvmcopyTurn me old new i child >>= fun ok =>
      if ok then uvmcopyLoop me old new child n (i + pgsize) else uvmcopyErr new i := by
  rw [uvmcopyLoop, uvmcopyTurn, TraceM.bind_assoc]
  congr 1
  funext res
  cases res with
  | none =>
    rw [TraceM.pure_bind]
    rfl
  | some pte =>
    dsimp only
    rw [TraceM.bind_assoc]
    congr 1
    funext e
    split
    · rw [TraceM.pure_bind]
      rfl
    · rw [TraceM.bind_assoc]
      congr 1
      funext present
      split <;> rfl

end Turns

end Xv6
