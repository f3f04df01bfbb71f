import Xv6.Vm.Proc

/-!
# `kernel/exec.c`

`kexec` builds a second address space from an ELF file, puts the arguments on its stack and only then
gives the old one up. The file is what `namei` and `readi` see of it: a size and bytes; locks on the
inode and the log do not matter here. Strings that the kernel keeps in `char` buffers are lists of
bytes without the terminating NUL.
-/

namespace Xv6

variable {D : Type}

/-- `MAXARG`. -/
abbrev maxarg : Nat := 32

/-- `USERSTACK`. -/
abbrev userstack : Nat := 1

/-- `ELF_MAGIC`. -/
def elfMagic : Nat := 0x464C457F

/-- `ELF_PROG_LOAD`. -/
def elfProgLoad : Nat := 1

/-! ## Words in files and in memory -/

/-- A number with its least significant byte first. -/
def leNat : List UInt8 → Nat
  | [] => 0
  | b :: bs => b.toNat + 256 * leNat bs

/-- The `n` bytes of a number. -/
def leBytes : Nat → Nat → List UInt8
  | 0, _ => []
  | n + 1, v => UInt8.ofNat v :: leBytes n (v / 256)

/-- The field of `n` bytes at offset `o` of a record. -/
def recordField (record : List UInt8) (o n : Nat) : Nat := leNat ((record.drop o).take n)

/-- `a - b` in 64 bits. -/
def sub64 (a b : Nat) : Nat := (a + 2 ^ 64 - b) % 2 ^ 64

/-! ## The file -/

/-- An inode that holds a file. -/
structure ExecFile where
  size : UInt32
  byte : Nat → UInt8

/-- `readi(ip, 0, dst, off, n)`: the bytes it copies. Their number is the value returned. -/
def ExecFile.readi (f : ExecFile) (off n : UInt32) : List UInt8 :=
  if f.size < off ∨ off + n < off then []
  else
    let n := if f.size < off + n then f.size - off else n
    (List.range n.toNat).map fun i => f.byte (off.toNat + i)

/-- `struct elfhdr`, as far as it is used. -/
structure ElfHdr where
  magic : Nat
  entry : Nat
  phoff : Nat
  phnum : Nat

/-- `sizeof(struct elfhdr)`. -/
def ElfHdr.size : Nat := 64

def ElfHdr.ofBytes (b : List UInt8) : ElfHdr :=
  ⟨recordField b 0 4, recordField b 24 8, recordField b 32 8, recordField b 56 2⟩

/-- `struct proghdr`, as far as it is used. -/
structure ProgHdr where
  type : Nat
  flags : Nat
  off : Nat
  vaddr : Nat
  filesz : Nat
  memsz : Nat

/-- `sizeof(struct proghdr)`. -/
def ProgHdr.size : Nat := 56

def ProgHdr.ofBytes (b : List UInt8) : ProgHdr :=
  ⟨recordField b 0 4, recordField b 4 4, recordField b 8 8, recordField b 16 8, recordField b 32 8,
    recordField b 40 8⟩

/-- `flags2perm`. -/
def flags2perm (flags : Nat) : Pte :=
  (if flags.testBit 0 then bit pteX else 0) ||| (if flags.testBit 1 then bit pteW else 0)

/-! ## Loading segments -/

/-- The loop of `loadseg`, with `n` pages left. -/
def loadsegLoop (pt va : Nat) (f : ExecFile) (offset : UInt32) (sz : Nat) : Nat → Nat → KM D Int
  | 0, _ => return 0
  | n + 1, i => do
    let pa ← walkaddr pt (va + i)
    if pa = 0 then throw .loadseg
    let len := min (sz - i) pgsize
    let bytes := f.readi (offset + UInt32.ofNat i) (UInt32.ofNat len)
    modify fun k => k.setMem pa (writeBytes (k.mem pa) 0 bytes)
    if bytes.length ≠ len then return -1
    loadsegLoop pt va f offset sz n (i + pgsize)

/-- `loadseg`. Its last two arguments are of type `uint`. -/
def loadseg (pt va : Nat) (f : ExecFile) (offset filesz : Nat) : KM D Int :=
  let sz := filesz % 2 ^ 32
  loadsegLoop pt va f (UInt32.ofNat offset) sz ((sz + pgsize - 1) / pgsize) 0

/-- One turn of the loop over the program headers: the size reached, and whether to go on. -/
def loadSegment [SwapStore D] (me : ProcId) (pt : Nat) (f : ExecFile) (off : UInt32) (sz : Nat) :
    KM D (Nat × Bool) := do
  let bytes := f.readi off (UInt32.ofNat ProgHdr.size)
  if bytes.length ≠ ProgHdr.size then return (sz, false)
  let ph := ProgHdr.ofBytes bytes
  if ph.type ≠ elfProgLoad then return (sz, true)
  if ph.memsz < ph.filesz then return (sz, false)
  -- `ph.vaddr + ph.memsz < ph.vaddr` in 64 bits
  if 2 ^ 64 ≤ ph.vaddr + ph.memsz then return (sz, false)
  if ph.vaddr % pgsize ≠ 0 then return (sz, false)
  let sz₁ ← uvmalloc me pt sz (ph.vaddr + ph.memsz) (flags2perm ph.flags)
  if sz₁ = 0 then return (sz, false)
  let ret ← loadseg pt ph.vaddr f ph.off ph.filesz
  return (sz₁, decide (0 ≤ ret))

/-- The loop over the program headers, with `n` of them left. -/
def loadSegments [SwapStore D] (me : ProcId) (pt : Nat) (f : ExecFile) :
    Nat → UInt32 → Nat → KM D (Nat × Bool)
  | 0, _, sz => return (sz, true)
  | n + 1, off, sz => do
    let (sz, ok) ← loadSegment me pt f off sz
    if ok then loadSegments me pt f n (off + UInt32.ofNat ProgHdr.size) sz else return (sz, false)

/-! ## Arguments -/

/-- A string of the kernel. `strlen` returns an `int`. -/
structure KString where
  bytes : List UInt8
  nul : 0 ∉ bytes
  short : bytes.length + 1 < 2 ^ 31

/-- The string with its NUL. -/
def KString.stored (s : KString) : List UInt8 := s.bytes ++ [0]

/-- `sp -= n; sp -= sp % 16`. -/
def pushed (sp n : Nat) : Nat := sub64 sp n - sub64 sp n % 16

/-- Copying `bytes` to the stack below `sp`: the new stack pointer, or none for `goto bad`. -/
def pushBytes [SwapStore D] (me : ProcId) (pt stackbase sp : Nat) (bytes : List UInt8) :
    KM D (Option Nat) := do
  let sp := pushed sp bytes.length
  if sp < stackbase then return none
  if (← copyout me pt sp bytes) < 0 then return none
  return some sp

/-- The loop over `argv`, with `ustack` filled so far. -/
def pushArgs [SwapStore D] (me : ProcId) (pt stackbase : Nat) :
    List KString → Nat → List Nat → KM D (Option (Nat × List Nat))
  | [], sp, ustack => return some (sp, ustack)
  | s :: argv, sp, ustack => do
    if maxarg ≤ ustack.length then return none
    match ← pushBytes me pt stackbase sp s.stored with
    | none => return none
    | some sp => pushArgs me pt stackbase argv sp (ustack ++ [sp])

/-- The bytes of an array of pointers. -/
def words (ustack : List Nat) : List UInt8 := ustack.flatMap (leBytes 8)

/-- The strings, and then the array of pointers to them: the stack pointer, or none for `goto bad`. -/
def pushArgv [SwapStore D] (me : ProcId) (pt stackbase sp : Nat) (argv : List KString) :
    KM D (Option Nat) := do
  match ← pushArgs me pt stackbase argv sp [] with
  | none => return none
  | some (sp, ustack) => pushBytes me pt stackbase sp (words (ustack ++ [0]))

/-! ## The call -/

/-- The part of a path behind its last slash. -/
def lastElem (path : List UInt8) : List UInt8 :=
  path.foldl (fun last c => if c = 47 then [] else last ++ [c]) []

/-- Offsets of the registers `epc`, `sp` and `a1` in `struct trapframe`. -/
def tfEpc : Nat := 24
def tfSp : Nat := 48
def tfA1 : Nat := 120

/-- `p->trapframe` with `a1`, `epc` and `sp` set. -/
def execTrapframe (page : Page) (entry sp : Nat) : Page :=
  writeBytes (writeBytes (writeBytes page tfA1 (leBytes 8 sp)) tfEpc (leBytes 8 entry)) tfSp (leBytes 8 sp)

/-- Committing to the user image: everything up to the release of the old one. -/
def Kernel.execCommit (k : Kernel D) (me : ProcId) (path : List UInt8) (pt sz entry sp : Nat) :
    Kernel D :=
  (k.setMem (k.proc me).trapframe (execTrapframe (k.mem (k.proc me).trapframe) entry sp)).updProc me
    fun q => { q with name := (lastElem path).take 15, pagetable := pt, sz := sz }

/-- The counters that are reset at the end. -/
def Proc.resetPaging (q : Proc) : Proc :=
  { q with pagesEvicted := 0, pagesSwappedIn := 0, pagesSwappedOut := 0 }

/-- The label `bad`, once there is a page table. -/
def execBad [SwapStore D] (pt sz : Nat) : KM D Int := do
  procFreepagetable pt sz
  return -1

/-- The new image takes over and the old one is released. -/
def execSwitch [SwapStore D] (me : ProcId) (path : List UInt8) (argv : List KString)
    (entry pt sz sp oldsz : Nat) : KM D Int := do
  let oldpagetable := ((← get).proc me).pagetable
  modify fun k => k.execCommit me path pt sz entry sp
  procFreepagetable oldpagetable oldsz
  modify fun k => k.updProc me Proc.resetPaging
  return argv.length

/-- From the end of the program headers on, with the segments loaded below `sz`. -/
def execStack [SwapStore D] (me : ProcId) (path : List UInt8) (argv : List KString)
    (entry pt sz : Nat) : KM D Int := do
  let oldsz := ((← get).proc me).sz
  let sz := pgroundup sz
  let sz₁ ← uvmalloc me pt sz (sz + (userstack + 1) * pgsize) (bit pteW)
  if sz₁ = 0 then execBad pt sz
  else
    uvmclear pt (sz₁ - (userstack + 1) * pgsize)
    match ← pushArgv me pt (sz₁ - userstack * pgsize) sz₁ argv with
    | none => execBad pt sz₁
    | some sp => execSwitch me path argv entry pt sz₁ sp oldsz

/-- `kexec`, with the inode that `namei(path)` returns, if it returns one. -/
def kexec [SwapStore D] (me : ProcId) (path : List UInt8) (ip : Option ExecFile)
    (argv : List KString) : KM D Int := do
  match ip with
  | none => return -1
  | some f =>
    let bytes := f.readi 0 (UInt32.ofNat ElfHdr.size)
    if bytes.length ≠ ElfHdr.size then return -1
    let elf := ElfHdr.ofBytes bytes
    if elf.magic ≠ elfMagic then return -1
    let pt ← procPagetable me me
    if pt = 0 then return -1
    let (sz, ok) ← loadSegments me pt f elf.phnum (UInt32.ofNat elf.phoff) 0
    if ok then execStack me path argv elf.entry pt sz else execBad pt sz

end Xv6
