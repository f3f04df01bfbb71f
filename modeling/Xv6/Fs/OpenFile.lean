import Xv6.Lib.Search
import Xv6.Lib.Traced
import Xv6.Pipe
import Xv6.Vm.Kernel

/-!
# Open files

The table of open files of `kernel/file.c`, the descriptor tables of the processes, and the system calls
of `kernel/sysfile.c` and `kernel/proc.c` that make and drop references: `open`, `dup`, `close`, `pipe`,
`fork` and `exit`. The pipes are those of `kernel/pipe.c`; a page holds a pipe from `pipealloc` to the
`kfree` in `pipeclose`.

What happens outside of these tables is decided by the environment: which inode a path leads to, whether
there is a page for a pipe, whether user memory can be written, and whether `allocproc` and `uvmcopy`
succeed. The making of a pipe and every call of `pipeclose` and of `iput` are events. A call is atomic.
-/

namespace Xv6.OpenFile

open TraceM Function

/-- `NFILE`. -/
abbrev nfile : Nat := 100

/-- `NDEV`. -/
abbrev ndev : Nat := 10

/-- A `struct file *`. -/
abbrev FileId := Fin nfile

/-- A file descriptor. -/
abbrev Fd := Fin nofile

inductive FdType where
  | none      -- `FD_NONE`
  | pipe      -- `FD_PIPE`
  | inode     -- `FD_INODE`
  | device    -- `FD_DEVICE`
  deriving DecidableEq, Repr

/-- `struct file`. -/
structure File where
  type : FdType
  ref : Int
  readable : Bool
  writable : Bool
  pipe : Nat
  ip : Nat
  off : UInt32
  major : Int16

/-- `ftable`, the descriptor tables, the pages that hold pipes, and the states of the processes. -/
structure State where
  file : FileId → File
  ofile : ProcId × Fd → Option FileId
  pipes : Nat → Option Pipe
  state : ProcId → ProcState

inductive Fault where
  | filedup         -- "filedup"
  | fileclose       -- "fileclose"
  | initExiting     -- "init exiting"
  | freedPipe       -- `pipeclose` of a page that holds no pipe
  deriving DecidableEq, Repr

inductive Event where
  /-- `pipealloc` made a pipe of the page. -/
  | pipealloc (pi : Nat)
  | pipeclose (pi : Nat) (writable : Bool)
  | iput (ip : Nat)
  deriving DecidableEq, Repr

abbrev M := TraceM Fault State Event

namespace State

variable (s : State)

def setFile (f : FileId) (x : File) : State := { s with file := update s.file f x }

def setOfile (x : ProcId × Fd) (o : Option FileId) : State :=
  { s with ofile := update s.ofile x o }

def setPipe (pi : Nat) (q : Option Pipe) : State := { s with pipes := update s.pipes pi q }

def setState (p : ProcId) (st : ProcState) : State := { s with state := update s.state p st }

/-- After boot: the first process has no open files. -/
def init : State where
  file _ := ⟨.none, 0, false, false, 0, 0, 0, 0⟩
  ofile _ := none
  pipes _ := none
  state p := if p = 0 then .runnable else .unused

end State

/-! ## `kernel/file.c` -/

def filealloc : M (Option FileId) := do
  let s ← get
  match firstIdx fun f => (s.file f).ref == 0 with
  | none => return none
  | some f =>
    modify fun s => s.setFile f { s.file f with ref := 1 }
    return some f

def filedup (f : FileId) : M Unit := do
  let s ← get
  if (s.file f).ref < 1 then throw .filedup
  modify fun s => s.setFile f { s.file f with ref := (s.file f).ref + 1 }

/-- `pipeclose`; the page is freed when both ends are closed. -/
def pipeclose (pi : Nat) (writable : Bool) : M Unit := do
  emit (.pipeclose pi writable)
  match (← get).pipes pi with
  | none => throw .freedPipe
  | some q =>
    let q := q.close writable
    modify fun s => s.setPipe pi (if q.readopen = false ∧ q.writeopen = false then none else some q)

def fileclose (f : FileId) : M Unit := do
  let ff := (← get).file f
  if ff.ref < 1 then throw .fileclose
  if 0 < ff.ref - 1 then
    modify fun s => s.setFile f { s.file f with ref := ff.ref - 1 }
  else
    modify fun s => s.setFile f { s.file f with ref := 0, type := .none }
    match ff.type with
    | .pipe => pipeclose ff.pipe ff.writable
    | .inode => emit (.iput ff.ip)
    | .device => emit (.iput ff.ip)
    | .none => return

/-! ## `kernel/sysfile.c` -/

/-- `argfd`: the descriptor and the open file it stands for. -/
def argfd (s : State) (p : ProcId) (n : Int) : Option (Fd × FileId) :=
  if h : 0 ≤ n ∧ n < nofile then
    (s.ofile (p, ⟨n.toNat, by omega⟩)).map fun f => (⟨n.toNat, by omega⟩, f)
  else none

def fdalloc (p : ProcId) (f : FileId) : M (Option Fd) := do
  let s ← get
  match firstIdx fun fd => (s.ofile (p, fd)).isNone with
  | none => return none
  | some fd =>
    modify fun s => s.setOfile (p, fd) (some f)
    return some fd

def sysDup (p : ProcId) (n : Int) : M Int := do
  match argfd (← get) p n with
  | none => return -1
  | some (_, f) =>
    match ← fdalloc p f with
    | none => return -1
    | some fd =>
      filedup f
      return fd

def sysClose (p : ProcId) (n : Int) : M Int := do
  match argfd (← get) p n with
  | none => return -1
  | some (fd, f) =>
    modify fun s => s.setOfile (p, fd) none
    fileclose f
    return 0

/-- `O_WRONLY`. -/
abbrev oWronly : BitVec 32 := 0x001

/-- `O_RDWR`. -/
abbrev oRdwr : BitVec 32 := 0x002

/-- `O_CREATE`. -/
abbrev oCreate : BitVec 32 := 0x200

/-- The inode that `create` or `namei` returned, locked. -/
structure Target where
  ip : Nat
  type : Int16
  major : Int16

/-- `T_DIR`. -/
abbrev tDir : Int16 := 1

/-- `T_DEVICE`. -/
abbrev tDevice : Int16 := 3

/-- The fields that `sys_open` sets. -/
def File.opened (x : File) (t : Target) (omode : BitVec 32) : File :=
  let x := if t.type = tDevice then { x with type := .device, major := t.major }
    else { x with type := .inode, off := 0 }
  { x with
    ip := t.ip
    readable := omode &&& oWronly = 0
    writable := omode &&& oWronly ≠ 0 ∨ omode &&& oRdwr ≠ 0 }

/-- `sys_open`, where the path leads to `target`; `none` stands for a bad path argument, a failed
`create` and a failed `namei`. -/
def sysOpen (p : ProcId) (omode : BitVec 32) (target : Option Target) : M Int := do
  match target with
  | none => return -1
  | some t =>
    if omode &&& oCreate = 0 ∧ t.type = tDir ∧ omode ≠ 0 then
      emit (.iput t.ip)
      return -1
    if t.type = tDevice ∧ (t.major < 0 ∨ (ndev : Int) ≤ t.major.toInt) then
      emit (.iput t.ip)
      return -1
    match ← filealloc with
    | none =>
      emit (.iput t.ip)
      return -1
    | some f =>
      match ← fdalloc p f with
      | none =>
        fileclose f
        emit (.iput t.ip)
        return -1
      | some fd =>
        modify fun s => s.setFile f ((s.file f).opened t omode)
        return fd

/-- The fields that `pipealloc` sets. -/
def File.piped (x : File) (pi : Nat) (writable : Bool) : File :=
  { x with type := .pipe, readable := !writable, writable := writable, pipe := pi }

/-- `pipealloc`, with what `kalloc` returns; the page comes filled with fives. -/
def pipealloc (page : Option Nat) : M (Option (FileId × FileId)) := do
  match ← filealloc with
  | none => return none
  | some f₀ =>
    match ← filealloc with
    | none =>
      fileclose f₀
      return none
    | some f₁ =>
      match page with
      | none =>
        fileclose f₀
        fileclose f₁
        return none
      | some pi =>
        emit (.pipealloc pi)
        modify fun s => s.setPipe pi (some (.alloc fun _ => 5))
        modify fun s => s.setFile f₀ ((s.file f₀).piped pi false)
        modify fun s => s.setFile f₁ ((s.file f₁).piped pi true)
        return some (f₀, f₁)

/-- `sys_pipe`; `copied` says whether both descriptors could be copied out. -/
def sysPipe (p : ProcId) (page : Option Nat) (copied : Bool) : M Int := do
  match ← pipealloc page with
  | none => return -1
  | some (rf, wf) =>
    match ← fdalloc p rf with
    | none =>
      fileclose rf
      fileclose wf
      return -1
    | some fd₀ =>
      match ← fdalloc p wf with
      | none =>
        modify fun s => s.setOfile (p, fd₀) none
        fileclose rf
        fileclose wf
        return -1
      | some fd₁ =>
        if copied then return 0
        modify fun s => s.setOfile (p, fd₀) none
        modify fun s => s.setOfile (p, fd₁) none
        fileclose rf
        fileclose wf
        return -1

/-! ## `kernel/proc.c` -/

/-- The loop of `kfork` over the descriptors. -/
def forkFd (p np : ProcId) (fd : Fd) : M Unit := do
  match (← get).ofile (p, fd) with
  | none => return
  | some f =>
    filedup f
    modify fun s => s.setOfile (np, fd) (some f)

/-- `kfork`, with the slot that `allocproc` found and the success of `uvmcopy`. -/
def kfork (p : ProcId) (slot : Option ProcId) (copied : Bool) : M (Option ProcId) := do
  match slot with
  | none => return none
  | some np =>
    modify fun s => s.setState np .used
    if copied = false then
      modify fun s => s.setState np .unused
      return none
    (List.finRange nofile).forM (forkFd p np)
    modify fun s => s.setState np .runnable
    return some np

/-- The loop of `kexit` over the descriptors. -/
def exitFd (p : ProcId) (fd : Fd) : M Unit := do
  match (← get).ofile (p, fd) with
  | none => return
  | some f =>
    fileclose f
    modify fun s => s.setOfile (p, fd) none

/-- `kexit`; the first process may not exit. -/
def kexit (p : ProcId) : M Unit := do
  if p = 0 then throw .initExiting
  (List.finRange nofile).forM (exitFd p)
  modify fun s => s.setState p .zombie

/-- The end of `kwait` for a zombie: `freeproc`. -/
def reap (p : ProcId) : M Unit := modify fun s => s.setState p .unused

end Xv6.OpenFile
