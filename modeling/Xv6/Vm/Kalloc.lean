import Xv6.Lib.Search
import Xv6.Vm.Kernel

/-!
# `kernel/kalloc.c`

The page allocator, the frame table with its clock, and the swap table. The bodies of the critical
sections are functions on the kernel state (`Kernel.…`); the procedures of the source take the lock,
apply them and release it.

`swapout` returns a slot or `-1`; here `Option (Fin maxSwap)`.
-/

namespace Xv6

variable {D : Type}

/-- `walk(pagetable, va, 0)`. -/
def walk (pt va : Nat) : KM D (Option PtePtr) := do
  if maxva ≤ va then throw .walk
  let k ← get
  match k.tables pt with
  | none => throw .kerneltrap
  | some t => return (t.entry (vpn va)).map fun _ => ⟨pt, vpn va⟩

/-! ## The frame table -/

/-- `p->resident_pages--`. -/
def Proc.lessResident (q : Proc) : Proc := { q with residentPages := q.residentPages - 1 }

/-- `p->resident_pages++`. -/
def Proc.moreResident (q : Proc) : Proc := { q with residentPages := q.residentPages + 1 }

/-- Giving an entry of the frame table up, as `frametablefree` does. -/
def Kernel.clearFrame (k : Kernel D) (i : Fin maxFrames) : Kernel D :=
  let k₁ := { k.setFrame i ⟨false, none, 0, 0⟩ with activeFrames := k.activeFrames - 1 }
  match (k.frametable i).proc with
  | none => k₁
  | some p => k₁.updProc p Proc.lessResident

/-- The critical section of `frametablefree`: the first used entry of the frame `pa` is given up. -/
def Kernel.dropFrame (k : Kernel D) (pa : Nat) : Kernel D :=
  match firstIdx fun i => (k.frametable i).pa == pa && (k.frametable i).used with
  | none => k
  | some i => k.clearFrame i

def frametablefree (pa : Nat) : KM D Unit := do
  acquireFramelock
  modify fun k => k.dropFrame pa
  releaseFramelock

/-- Taking the free entry `i`, as `frametable_alloc` does, for a process or for none. -/
def Kernel.registerFrame (k : Kernel D) (i : Fin maxFrames) (pa : Nat) (p : Option ProcId) (va : Nat) :
    Kernel D :=
  let k₁ := { k.setFrame i ⟨true, p, va, pa⟩ with activeFrames := k.activeFrames + 1 }
  match p with
  | none => k₁
  | some p => k₁.updProc p Proc.moreResident

/-! ## The free list -/

/-- The junk `kfree` and `kalloc` fill a page with. -/
def junk (b : UInt8) : Page := fun _ => b

def kfree (pa : Nat) : KM D Unit := do
  let k ← get
  if pa % pgsize ≠ 0 ∨ pa < k.image.kend ∨ phystop ≤ pa then throw .kfree
  frametablefree pa
  modify fun k => k.setMem pa (junk 1)
  modify fun k => k.setFreelist (pa :: k.freelist)

/-! ## The swap table -/

/-- The first critical section of `swapout`: the lowest free slot is taken for page `va` of `pt`. -/
def Kernel.takeSlot [SwapStore D] (k : Kernel D) (pt va : Nat) : Option (Fin maxSwap × Kernel D) :=
  (firstIdx fun s => !(k.swaptable s).used).map fun s =>
    (s, k.setSlot s ⟨true, pt, va, SwapStore.raidMode k.disk⟩)

def swapout [SwapStore D] (me : ProcId) (pt va : Nat) : KM D (Option (Fin maxSwap)) := do
  match ← walk pt va with
  | none => return none
  | some pte =>
    let e ← deref pte
    if e.getLsbD pteV = false then return none
    let k ← get
    match k.takeSlot pt va with
    | none => return none
    | some (s, k₁) =>
      set k₁
      onDisk (SwapStore.swapOutPage (k.caller me) (k.mem (pte2pa e)) s)
      modify fun k => k.setDisk (SwapStore.noteWrite me k.disk)
      let e ← deref pte
      assign pte (swapEntry s e)
      return some s

/-- The slot with this number, if `0 <= idx < MAX_SWAP`. -/
def slotOf (idx : Int) : Option (Fin maxSwap) :=
  if h : 0 ≤ idx ∧ idx < maxSwap then some ⟨idx.toNat, by omega⟩ else none

theorem slotOf_eq_some {idx : Int} {s : Fin maxSwap} : slotOf idx = some s ↔ idx = s := by
  unfold slotOf
  split
  · next h =>
      rw [Option.some.injEq, Fin.ext_iff]
      show idx.toNat = s.val ↔ _
      omega
  · next h =>
      constructor
      · intro hf
        cases hf
      · rintro rfl
        exact absurd ⟨Int.natCast_nonneg _, by exact_mod_cast s.isLt⟩ h

attribute [irreducible] slotOf

def Kernel.freeSlot [SwapStore D] (k : Kernel D) (s : Fin maxSwap) : Kernel D :=
  (k.setSlot s ⟨false, 0, 0, .raid0⟩).setDisk (SwapStore.swapDiskFreeSlot s k.disk)

/-- `swap_free`. -/
def swapFree [SwapStore D] (idx : Int) : KM D Unit :=
  match slotOf idx with
  | none => pure ()
  | some s => modify fun k => k.freeSlot s

def swapin [SwapStore D] (me : ProcId) (pa : Nat) (idx : Int) : KM D Unit := do
  match slotOf idx with
  | none => throw .swapin
  | some s =>
    let k ← get
    if (k.swaptable s).used = false then throw .swapin
    let page ← onDisk (SwapStore.swapInPage (k.caller me) (k.mem pa) s)
    modify fun k => k.setMem pa page
    modify fun k => k.setDisk (SwapStore.noteRead me k.disk)
    swapFree idx

/-! ## The clock -/

/-- `p->state == RUNNING && p != myproc()`. -/
def Kernel.runsElsewhere (k : Kernel D) (me p : ProcId) : Bool :=
  (k.proc p).state == .running && p != me

/-- `best_idx` and `best_level`. -/
structure Best where
  idx : Option (Fin maxFrames)
  level : Int32

/-- What one turn of the clock does with the entry under the hand. -/
def clockLook (me : ProcId) (best : Best) : KM D Best := do
  let k ← get
  let f := k.frametable k.clockHand
  match f.proc with
  | none => return best
  | some p =>
    if k.runsElsewhere me p then return best
    match ← walk (k.proc p).pagetable f.va with
    | none => return best
    | some pte =>
      let e ← deref pte
      if e.getLsbD pteV then
        if e.getLsbD pteA then
          -- clear the reference bit: a second chance
          assign pte (e &&& ~~~ bit pteA)
          return best
        else if best.idx = none ∨ best.level < (k.proc p).curQueueLvl then
          return ⟨some k.clockHand, (k.proc p).curQueueLvl⟩
        else return best
      else return best

def Kernel.advanceHand (k : Kernel D) : Kernel D := { k with clockHand := k.clockHand + 1 }

/-- The loop of `clock_evict`, for the turns that are left. -/
def clockScan (me : ProcId) : Nat → Best → KM D Best
  | 0, best => return best
  | n + 1, best => do
    let best ← clockLook me best
    modify Kernel.advanceHand
    clockScan me n best

/-- The fallback of `clock_evict`: any entry whose process does not run elsewhere. -/
def Kernel.anyVictim (k : Kernel D) (me : ProcId) : Option (Fin maxFrames) :=
  firstIdx fun i =>
    match (k.frametable i).proc with
    | none => false
    | some p => !k.runsElsewhere me p

/-- A victim: its frame-table entry, process and address. -/
structure Victim where
  idx : Fin maxFrames
  proc : ProcId
  va : Nat

/-- Moving the hand behind the victim and hiding its entry from other evictions. -/
def Kernel.hideFrame (k : Kernel D) (i : Fin maxFrames) : Kernel D :=
  { k.setFrame i { k.frametable i with proc := none } with clockHand := i + 1 }

/-- The first critical section of `clock_evict`: choose a victim and hide it. -/
def clockSelect (me : ProcId) : KM D (Option Victim) := do
  acquireFramelock
  let best ← clockScan me (maxFrames * 2) ⟨none, 0⟩
  let k ← get
  let chosen := match best.idx with
    | none => k.anyVictim me
    | some i => some i
  match chosen with
  | none =>
    releaseFramelock
    return none
  | some i =>
    modify fun k => k.hideFrame i
    releaseFramelock
    return (k.frametable i).proc.map fun p => ⟨i, p, (k.frametable i).va⟩

/-- The counters of a process that lost a page. -/
def Proc.countEvicted (q : Proc) : Proc :=
  { q with
    pagesEvicted := q.pagesEvicted + 1
    pagesSwappedOut := q.pagesSwappedOut + 1
    residentPages := q.residentPages - 1 }

/-- The last critical section of `clock_evict` after the page went out. -/
def Kernel.finishEvict (k : Kernel D) (v : Victim) : Kernel D :=
  { (k.setFrame v.idx { k.frametable v.idx with used := false }).updProc v.proc
      Proc.countEvicted with
    activeFrames := k.activeFrames - 1 }

/-- The last critical section of `clock_evict` when the page could not go out. -/
def Kernel.unhideFrame (k : Kernel D) (v : Victim) : Kernel D :=
  k.setFrame v.idx { k.frametable v.idx with proc := some v.proc }

/-- `clock_evict`: the frame to reuse, or `0`. -/
def clockEvict [SwapStore D] (me : ProcId) : KM D Nat := do
  let before ← get
  match ← clockSelect me with
  | none => return 0
  | some v =>
    let k ← get
    match ← swapout me (k.proc v.proc).pagetable v.va with
    | none =>
      acquireFramelock
      modify fun k => k.unhideFrame v
      releaseFramelock
      return 0
    | some _ =>
      acquireFramelock
      modify fun k => k.finishEvict v
      releaseFramelock
      let k ← get
      let pa := (k.frametable v.idx).pa
      TraceM.emit ⟨v.idx, pa, before, k⟩
      return pa

/-! ## Allocation -/

def kalloc [SwapStore D] (me : ProcId) : KM D Nat := do
  let k ← get
  match k.freelist with
  | [] => clockEvict me
  | pa :: rest =>
    set (k.setFreelist rest)
    modify fun k => k.setMem pa (junk 5)
    return pa

/-- `get_frame` of `kernel/vm.c`. -/
def getFrame [SwapStore D] (me : ProcId) : KM D Nat := do
  acquireFramelock
  let count := (← get).activeFrames
  releaseFramelock
  if count < maxFrames then
    let pa ← kalloc me
    if pa = 0 then clockEvict me else return pa
  else clockEvict me

/-- The body of `frametable_alloc`, with its recursive call as the parameter `again`. When no entry is
free, the lock is still held at the call of `clock_evict`. -/
def frametableAllocBody [SwapStore D] (again : KM D Unit) (me : ProcId) (pa : Nat) (p : Option ProcId)
    (va : Nat) : KM D Unit := do
  acquireFramelock
  if pa = 0 then releaseFramelock
  else
    let k ← get
    match firstIdx fun i => !(k.frametable i).used with
    | some i =>
      modify fun k => k.registerFrame i pa p va
      releaseFramelock
    | none =>
      let victim ← clockEvict me
      if victim = 0 then throw .gridlock
      kfree victim
      again

/-- `frametable_alloc(pa, p, va)`, where `p` may be null. The recursive call is never reached
(`frametableAllocBody_again`), so what stands in its place does not matter. -/
def frametableAllocFor [SwapStore D] (me : ProcId) (pa : Nat) (p : Option ProcId) (va : Nat) : KM D Unit :=
  frametableAllocBody (throw .kerneltrap) me pa p va

/-- `frametable_alloc` for a process. -/
def frametableAlloc [SwapStore D] (me : ProcId) (pa : Nat) (p : ProcId) (va : Nat) : KM D Unit :=
  frametableAllocFor me pa (some p) va

end Xv6
