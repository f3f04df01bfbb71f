import Xv6.Lib.Traced
import Xv6.SwapDisk.Raid
import Xv6.Vm.PageTable

/-!
# The state of the paging kernel

Everything `kernel/kalloc.c`, `kernel/vm.c`, `kernel/proc.c` and `kernel/exec.c` read and write when
they move user pages around: the free list, physical memory, the page tables, the frame table with its
clock, the swap table, and the process table.

The swap device is a parameter `D` with the interface `SwapStore`; `kernel/swap_disk.c` is one
instance. Pages in use as page tables are kept as trees in `tables`, under the address of their root;
`mem` holds the content of all other pages.
-/

namespace Xv6

open Function

/-- `enum procstate`. -/
inductive ProcState where
  | unused
  | used
  | sleeping
  | runnable
  | running
  | zombie
  deriving DecidableEq, Repr

/-- `NOFILE`. -/
abbrev nofile : Nat := 16

/-- `struct proc`, without the lock, the kernel stack and the saved kernel registers; its disk counters
are part of the swap device. Open files and the working directory are only copied here, so they are
plain handles. -/
structure Proc where
  state : ProcState
  chan : Nat
  killed : Int32
  xstate : Int32
  pid : Int32
  parent : Option ProcId
  sz : Nat
  pagetable : Nat
  trapframe : Nat
  ofile : Fin nofile → Option Nat
  cwd : Nat
  name : List UInt8
  syscount : Int32
  curQueueLvl : Int32
  ticksEachLevel : Int32
  ticks : Fin 4 → Int32
  noOfSchedules : Int32
  temp : Int32
  pageFaults : Int32
  pagesEvicted : Int32
  pagesSwappedIn : Int32
  pagesSwappedOut : Int32
  residentPages : Int32

/-- `struct frame`. -/
structure Frame where
  used : Bool
  proc : Option ProcId
  va : Nat
  pa : Nat
  deriving DecidableEq

/-- `struct swap`. -/
structure SwapSlot where
  used : Bool
  pageTable : Nat
  va : Nat
  raidMode : SwapDisk.RaidMode
  deriving DecidableEq

/-- What the linker decides: `end` and the address of the trampoline page. -/
structure Image where
  kend : Nat
  trampoline : Nat
  kernbase_le : kernbase ≤ kend
  kend_le : kend ≤ phystop
  trampoline_lt : trampoline < kend
  trampoline_aligned : trampoline % pgsize = 0

/-- A kernel of 136 KiB, with its trampoline at `0x80007000`. -/
def Image.small : Image := ⟨0x80022000, 0x80007000, by decide, by decide, by decide, by decide⟩

/-- The swap device as `kernel/kalloc.c` uses it. `noteWrite` and `noteRead` are the counter updates
`swapout` and `swapin` make on behalf of the calling process. -/
class SwapStore (D : Type) where
  raidMode : D → SwapDisk.RaidMode
  swapOutPage : SwapDisk.Caller → Page → Nat → PanicM DiskPanic D Unit
  swapInPage : SwapDisk.Caller → Page → Nat → PanicM DiskPanic D Page
  swapDiskFreeSlot : Nat → D → D
  noteWrite : ProcId → D → D
  noteRead : ProcId → D → D

/-- A swap device that is an array of pages. -/
structure PageArray where
  page : Nat → Page

instance : SwapStore PageArray where
  raidMode _ := .raid0
  swapOutPage _ page slot := modify fun d => ⟨update d.page slot page⟩
  swapInPage _ _ slot := return (← get).page slot
  swapDiskFreeSlot _ d := d
  noteWrite _ d := d
  noteRead _ d := d

structure Kernel (D : Type) where
  image : Image
  freelist : List Nat
  mem : Nat → Page
  tables : Tables
  frametable : Fin maxFrames → Frame
  framelock : Bool
  clockHand : Fin maxFrames
  activeFrames : Int
  swaptable : Fin maxSwap → SwapSlot
  disk : D
  proc : ProcId → Proc
  nextpid : Int32

/-- What is reported about an eviction that succeeded: the frame-table entry chosen, the frame handed
to the caller, and the kernel before `clock_evict` was called and after it returned. -/
structure Eviction (D : Type) where
  entry : Fin maxFrames
  pa : Nat
  before : Kernel D
  after : Kernel D

abbrev KM (D : Type) := TraceM Panic (Kernel D) (Eviction D)

namespace Kernel

variable {D : Type} (k : Kernel D)

def setTables (T : Tables) : Kernel D := { k with tables := T }

/-- `*pte = e` for the leaf entry of page `v` in the table `r`. -/
def setEntry (r : Nat) (v : Vpn) (e : Pte) : Kernel D := k.setTables (k.tables.setEntry r v e)

def setMem (pa : Nat) (page : Page) : Kernel D := { k with mem := update k.mem pa page }

def updProc (p : ProcId) (f : Proc → Proc) : Kernel D :=
  { k with proc := update k.proc p (f (k.proc p)) }

def setFrame (i : Fin maxFrames) (f : Frame) : Kernel D :=
  { k with frametable := update k.frametable i f }

def setSlot (s : Fin maxSwap) (slot : SwapSlot) : Kernel D :=
  { k with swaptable := update k.swaptable s slot }

def setLock (b : Bool) : Kernel D := { k with framelock := b }

def setFreelist (l : List Nat) : Kernel D := { k with freelist := l }

def setDisk (d : D) : Kernel D := { k with disk := d }

@[simp] theorem setTables_tables (T : Tables) : (k.setTables T).tables = T := rfl

@[simp] theorem setEntry_tables (r : Nat) (v : Vpn) (e : Pte) :
    (k.setEntry r v e).tables = k.tables.setEntry r v e := rfl

@[simp] theorem setLock_framelock (b : Bool) : (k.setLock b).framelock = b := rfl

/-- `myproc()` as the disk layer reads it. -/
def caller (me : ProcId) : SwapDisk.Caller := ⟨me, (k.proc me).curQueueLvl⟩

end Kernel

/-! ## After boot -/

/-- A slot of the process table as `procinit` leaves it. -/
def Proc.fresh : Proc where
  state := .unused
  chan := 0
  killed := 0
  xstate := 0
  pid := 0
  parent := none
  sz := 0
  pagetable := 0
  trapframe := 0
  ofile _ := none
  cwd := 0
  name := []
  syscount := 0
  curQueueLvl := 0
  ticksEachLevel := 0
  ticks _ := 0
  noOfSchedules := 0
  temp := 0
  pageFaults := 0
  pagesEvicted := 0
  pagesSwappedIn := 0
  pagesSwappedOut := 0
  residentPages := 0

/-- The kernel as `kinit` and `procinit` leave it, with the pages `free` on the free list. -/
def Kernel.boot {D : Type} (image : Image) (free : List Nat) (d : D) : Kernel D where
  image := image
  freelist := free
  mem _ := fun _ => 1
  tables _ := none
  frametable _ := ⟨false, none, 0, 0⟩
  framelock := false
  clockHand := 0
  activeFrames := 0
  swaptable _ := ⟨false, 0, 0, .raid0⟩
  disk := d
  proc _ := .fresh
  nextpid := 1

/-! ## Access from code -/

variable {D : Type}

/-- A `pte_t *` into a leaf table: the table and the page. -/
structure PtePtr where
  table : Nat
  page : Vpn
  deriving DecidableEq

/-- `*pte`. -/
def deref (ptr : PtePtr) : KM D Pte := do
  let k ← get
  match k.tables.entry ptr.table ptr.page with
  | none => throw .kerneltrap
  | some e => return e

/-- `*pte = e`. -/
def assign (ptr : PtePtr) (e : Pte) : KM D Unit :=
  modify fun k => k.setEntry ptr.table ptr.page e

/-- Running an operation of the swap device. -/
def onDisk {α : Type} (x : PanicM DiskPanic D α) : KM D α := fun k =>
  match x k.disk with
  | .error e => .error (.disk e)
  | .ok (a, d) => .ok (a, k.setDisk d, [])

/-- `acquire(&framelock)`: a hart that holds it already panics. -/
def acquireFramelock : KM D Unit := do
  let k ← get
  if k.framelock then throw .acquire else modify fun k => k.setLock true

/-- `release(&framelock)`. -/
def releaseFramelock : KM D Unit := do
  let k ← get
  if k.framelock then modify fun k => k.setLock false else throw .release

end Xv6
