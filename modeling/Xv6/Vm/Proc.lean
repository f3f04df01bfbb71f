import Xv6.Vm.Uvm

/-!
# `kernel/proc.c`: address spaces of processes

The parts of process creation and release that build and free address spaces: `allocproc`,
`freeproc`, `growproc` and `kfork`, and `sys_sbrk`.
-/

namespace Xv6

variable {D : Type}

/-! ## Page tables of processes -/

/-- `proc_pagetable`: an address space with the trampoline and the trapframe page only, or `0`. -/
def procPagetable [SwapStore D] (me : ProcId) (p : ProcId) : KM D Nat := do
  let pt ← uvmcreate me
  if pt = 0 then return 0
  let k ← get
  if (← mappages me pt trampoline pgsize k.image.trampoline (bit pteR ||| bit pteX)) < 0 then
    uvmfree pt 0
    return 0
  if (← mappages me pt trapframe pgsize (k.proc p).trapframe (bit pteR ||| bit pteW)) < 0 then
    uvmunmap pt trampoline 1 false
    uvmfree pt 0
    return 0
  return pt

/-- `proc_freepagetable`. -/
def procFreepagetable [SwapStore D] (pt sz : Nat) : KM D Unit := do
  uvmunmap pt trampoline 1 false
  uvmunmap pt trapframe 1 false
  uvmfree pt sz

/-! ## Slots of the process table -/

/-- The fields `freeproc` resets after the memory of the process is gone. -/
def Proc.release (q : Proc) : Proc :=
  { q with
    pagetable := 0
    sz := 0
    pid := 0
    parent := none
    name := []
    chan := 0
    killed := 0
    xstate := 0
    syscount := 0
    state := .unused
    pageFaults := 0
    pagesEvicted := 0
    pagesSwappedIn := 0
    pagesSwappedOut := 0
    residentPages := 0 }

def freeproc [SwapStore D] (p : ProcId) : KM D Unit := do
  let tf := ((← get).proc p).trapframe
  if tf ≠ 0 then kfree tf
  modify fun k => k.updProc p fun q => { q with trapframe := 0 }
  let q := (← get).proc p
  if q.pagetable ≠ 0 then procFreepagetable q.pagetable q.sz
  modify fun k => k.updProc p Proc.release

/-- The fields `allocproc` sets in an unused slot. -/
def Proc.claim (q : Proc) (pid : Int32) : Proc :=
  { q with
    pid := pid
    state := .used
    syscount := 0
    curQueueLvl := 0
    ticksEachLevel := 0
    ticks := fun _ => 0
    noOfSchedules := 0
    temp := 0
    pageFaults := 0
    pagesEvicted := 0
    pagesSwappedIn := 0
    pagesSwappedOut := 0
    residentPages := 0 }

/-- `allocproc`, without the saved kernel registers: the slot taken, or none. -/
def allocproc [SwapStore D] (me : ProcId) : KM D (Option ProcId) := do
  let k ← get
  match firstIdx fun p => (k.proc p).state == .unused with
  | none => return none
  | some p =>
    set { k with nextpid := k.nextpid + 1 }
    modify fun k' => k'.updProc p fun q => q.claim k.nextpid
    let tf ← kalloc me
    modify fun k => k.updProc p fun q => { q with trapframe := tf }
    if tf = 0 then
      freeproc p
      return none
    let pt ← procPagetable me p
    modify fun k => k.updProc p fun q => { q with pagetable := pt }
    if pt = 0 then
      freeproc p
      return none
    return some p

/-- `userinit`: the first process, in the directory `root`. A null pointer is not checked for. -/
def userinit [SwapStore D] (me : ProcId) (root : Nat) : KM D Unit := do
  match ← allocproc me with
  | none => throw .kerneltrap
  | some p => modify fun k => k.updProc p fun q => { q with cwd := root, state := .runnable }

/-! ## System calls -/

/-- `a + n` in 64 bits. -/
def add64 (a : Nat) (n : Int32) : Nat := ((a + n.toInt) % 2 ^ 64).toNat

def growproc [SwapStore D] (me : ProcId) (n : Int32) : KM D Int := do
  let q := (← get).proc me
  if 0 < n then
    if trapframe < add64 q.sz n then return -1
    let sz ← uvmalloc me q.pagetable q.sz (add64 q.sz n) (bit pteW)
    if sz = 0 then return -1
    modify fun k => k.updProc me fun q => { q with sz := sz }
    return 0
  else if n < 0 then
    let sz ← uvmdealloc q.pagetable q.sz (add64 q.sz n)
    modify fun k => k.updProc me fun q => { q with sz := sz }
    return 0
  else return 0

/-- `sys_sbrk` of `kernel/sysproc.c`: a lazy call only raises the size. -/
def sysSbrk [SwapStore D] (me : ProcId) (n : Int32) (eager : Bool) : KM D Int := do
  let addr := ((← get).proc me).sz
  if eager ∨ n < 0 then
    if (← growproc me n) < 0 then return -1
    return addr
  else
    if add64 addr n < addr then return -1
    if trapframe < add64 addr n then return -1
    modify fun k => k.updProc me fun q => { q with sz := add64 addr n }
    return addr

/-- The trapframe of the child: the parent's 288 bytes with `a0`, at offset 112, set to `0`. -/
def childTrapframe (parent child : Page) : Page := fun o =>
  if 112 ≤ o.val ∧ o.val < 120 then 0 else if o.val < 288 then parent o else child o

/-- `kfork`: the pid of the child, or `-1`. -/
def kfork [SwapStore D] (me : ProcId) : KM D Int := do
  match ← allocproc me with
  | none => return -1
  | some np =>
    let k ← get
    let q := k.proc me
    if (← uvmcopy me q.pagetable (k.proc np).pagetable q.sz np) < 0 then
      freeproc np
      return -1
    modify fun k => k.updProc np fun c => { c with sz := (k.proc me).sz }
    modify fun k => k.setMem (k.proc np).trapframe
      (childTrapframe (k.mem (k.proc me).trapframe) (k.mem (k.proc np).trapframe))
    modify fun k => k.updProc np fun c =>
      { c with
        ofile := fun i => match (k.proc me).ofile i with
          | none => c.ofile i
          | some f => some f
        cwd := (k.proc me).cwd
        name := (k.proc me).name
        parent := some me
        state := .runnable }
    return ((← get).proc np).pid.toInt

end Xv6
