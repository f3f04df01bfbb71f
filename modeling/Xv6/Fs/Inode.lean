import Xv6.Lib.Bits
import Xv6.Lib.Search
import Xv6.Lib.Traced
import Xv6.Lib.Words
import Xv6.Param

/-!
# `kernel/fs.c`: blocks, inodes and the contents of files

The state is the blocks as the buffer cache shows them and the table of inodes in memory. A buffer
that `bread` returns is the block itself: new contents are seen by every later `bread`, whether or not
`log_write` was called. What was logged is an event, and so is every block that `balloc` hands out and
that `bfree` takes back. There is one device, so that `dev` is left out, and inodes are locked by
whoever works on them.
-/

namespace Xv6

open TraceM Function

/-! ## The format on disk -/

/-- `NDIRECT`. -/
abbrev ndirect : Nat := 12

/-- `NINDIRECT`: the block numbers in an indirect block. -/
abbrev nindirect : Nat := bsize / 4

/-- `MAXFILE`. -/
abbrev maxfile : Nat := ndirect + nindirect

/-- `NINODE`: the entries of the inode table. -/
abbrev ninode : Nat := 100

instance : NeZero ninode := ⟨by decide⟩

/-- `IPB`: inodes per block. -/
abbrev ipb : Nat := bsize / 64

/-- `BPB`: bits of the bitmap per block. -/
abbrev bpb : Nat := bsize * 8

/-- `struct superblock`, with the layout of a disk: the inodes, the bitmap, and the data blocks up to
the end. `balloc` counts blocks in an `int`. -/
structure Superblock where
  size : Nat
  nblocks : Nat
  ninodes : Nat
  inodestart : Nat
  bmapstart : Nat
  nblocks_le : nblocks ≤ size
  size_lt : size < 2 ^ 31
  inodes_fit : inodestart ≤ bmapstart ∧ ninodes ≤ (bmapstart - inodestart) * ipb
  bitmap_fit : bmapstart ≤ size - nblocks ∧ size ≤ (size - nblocks - bmapstart) * bpb

namespace Superblock

variable (sb : Superblock)

/-- The first data block. -/
def dataStart : Nat := sb.size - sb.nblocks

/-- `IBLOCK`: the block with an inode. -/
def iblock (inum : Nat) : Nat := inum / ipb + sb.inodestart

/-- `BBLOCK`: the block of the bitmap with the bit of a block. -/
def bblock (b : Nat) : Nat := b / bpb + sb.bmapstart

end Superblock

/-- `struct dinode`. -/
structure Dinode where
  type : Int16
  major : Int16
  minor : Int16
  nlink : Int16
  size : UInt32
  addrs : Fin (ndirect + 1) → UInt32

namespace Dinode

/-- `memset(dip, 0, sizeof(*dip))`. -/
def zero : Dinode := ⟨0, 0, 0, 0, 0, fun _ => 0⟩

/-- Two `short`s in a word. -/
def shorts (lo hi : Int16) : Nat := lo.toUInt16.toNat + hi.toUInt16.toNat * 2 ^ 16

def loShort (w : Nat) : Int16 := (UInt16.ofNat w).toInt16

def hiShort (w : Nat) : Int16 := (UInt16.ofNat (w / 2 ^ 16)).toInt16

/-- The inode at index `k` of a block; it takes 16 words. -/
def ofBlock (blk : Block) (k : Nat) : Dinode where
  type := loShort (Words.word blk (16 * k))
  major := hiShort (Words.word blk (16 * k))
  minor := loShort (Words.word blk (16 * k + 1))
  nlink := hiShort (Words.word blk (16 * k + 1))
  size := UInt32.ofNat (Words.word blk (16 * k + 2))
  addrs i := UInt32.ofNat (Words.word blk (16 * k + 3 + i))

def toWords (d : Dinode) : List Nat :=
  shorts d.type d.major :: shorts d.minor d.nlink :: d.size.toNat :: List.ofFn fun i => (d.addrs i).toNat

/-- A block with an inode written to index `k`. -/
def toBlock (d : Dinode) (blk : Block) (k : Nat) : Block := Words.setWords blk (16 * k) d.toWords

end Dinode

/-! ## The state -/

/-- `struct inode`: the copy of an inode in memory. -/
structure Inode extends Dinode where
  inum : Nat
  ref : Nat
  valid : Bool

/-- An entry of `itable.inode`. -/
abbrev InodeId := Fin ninode

structure Files where
  block : Nat → Block
  inode : InodeId → Inode

/-- Where `fs.c`, and `sys_unlink`, call `panic`. -/
inductive FilesPanic where
  | freeingFreeBlock     -- "freeing free block"
  | bmap                 -- "bmap: out of range"
  | iget                 -- "iget: no inodes"
  | ilock                -- "ilock"
  | ilockNoType          -- "ilock: no type"
  | dirlookupNotDir      -- "dirlookup not DIR"
  | dirlookupRead        -- "dirlookup read"
  | dirlinkRead          -- "dirlink read"
  | unlinkWritei         -- "unlink: writei"
  deriving DecidableEq, Repr

inductive FilesEvent where
  | logWrite (b : Nat)
  | balloc (a : UInt32)
  | bfree (a : UInt32)
  deriving DecidableEq, Repr

abbrev FilesM := TraceM FilesPanic Files FilesEvent

namespace Files

def setBlock (s : Files) (b : Nat) (data : Block) : Files :=
  { s with block := update s.block b data }

def setInode (s : Files) (k : InodeId) (ip : Inode) : Files :=
  { s with inode := update s.inode k ip }

def setAddr (s : Files) (k : InodeId) (i : Fin (ndirect + 1)) (a : UInt32) : Files :=
  s.setInode k { s.inode k with addrs := update (s.inode k).addrs i a }

end Files

/-- New contents for the buffer of a block, and `log_write`. -/
def logBlock (b : Nat) (data : Block) : FilesM Unit := do
  modify fun s => s.setBlock b data
  emit (.logWrite b)

variable (sb : Superblock)

/-! ## Blocks -/

def bzero (b : Nat) : FilesM Unit := logBlock b fun _ => 0

/-- The inner loop of `balloc`: the first free block with its bit in a block of the bitmap. -/
def ballocIn (data : Block) (b : Nat) : Option (Fin bpb) :=
  firstIdx fun bi => decide (b + bi < sb.size) && !Bits.bit data bi

/-- The outer loop of `balloc`. -/
def ballocFrom : List Nat → FilesM UInt32
  | [] => return 0
  | b :: bs => do
      let data := (← get).block (sb.bblock b)
      match ballocIn sb data b with
      | some bi =>
        logBlock (sb.bblock b) (Bits.setBit data bi)
        bzero (b + bi)
        emit (.balloc (UInt32.ofNat (b + bi)))
        return UInt32.ofNat (b + bi)
      | none => ballocFrom bs

def balloc : FilesM UInt32 :=
  ballocFrom sb ((List.range ((sb.size + bpb - 1) / bpb)).map fun k => k * bpb)

def bfree (b : UInt32) : FilesM Unit := do
  let data := (← get).block (sb.bblock b.toNat)
  if Bits.bit data (b.toNat % bpb) = false then throw .freeingFreeBlock
  logBlock (sb.bblock b.toNat) (Bits.clearBit data (b.toNat % bpb))
  emit (.bfree b)

/-! ## Inodes -/

/-- `iget`: the entry of an inode that is in the table, or a free one. -/
def iget (inum : Nat) : FilesM InodeId := do
  let s ← get
  match firstIdx fun k => decide (0 < (s.inode k).ref) && (s.inode k).inum == inum with
  | some k =>
    modify fun s => s.setInode k { s.inode k with ref := (s.inode k).ref + 1 }
    return k
  | none =>
    match firstIdx fun k => (s.inode k).ref == 0 with
    | some k =>
      modify fun s => s.setInode k { s.inode k with inum := inum, ref := 1, valid := false }
      return k
    | none => throw .iget

/-- The loop of `ialloc`. -/
def iallocFrom (type : Int16) : List Nat → FilesM (Option InodeId)
  | [] => return none
  | inum :: rest => do
      let data := (← get).block (sb.iblock inum)
      if (Dinode.ofBlock data (inum % ipb)).type = 0 then
        logBlock (sb.iblock inum) ({ Dinode.zero with type := type }.toBlock data (inum % ipb))
        return some (← iget inum)
      else
        iallocFrom type rest

def ialloc (type : Int16) : FilesM (Option InodeId) :=
  iallocFrom sb type (List.range' 1 (sb.ninodes - 1))

/-- `iupdate`: the copy in memory goes to disk. -/
def iupdate (k : InodeId) : FilesM Unit := do
  let s ← get
  let inum := (s.inode k).inum
  logBlock (sb.iblock inum)
    ((s.inode k).toDinode.toBlock (s.block (sb.iblock inum)) (inum % ipb))

def ilock (k : InodeId) : FilesM Unit := do
  let s ← get
  if (s.inode k).ref < 1 then throw .ilock
  if (s.inode k).valid = false then
    let inum := (s.inode k).inum
    let d := Dinode.ofBlock (s.block (sb.iblock inum)) (inum % ipb)
    modify fun s => s.setInode k { s.inode k with toDinode := d, valid := true }
    if d.type = 0 then throw .ilockNoType

/-! ## The contents of inodes -/

/-- `bmap` on one entry of `addrs`, which it fills if it is zero. -/
def bmapSlot (k : InodeId) (i : Fin (ndirect + 1)) : FilesM UInt32 := do
  let addr := ((← get).inode k).addrs i
  if addr = 0 then
    let new ← balloc sb
    if new = 0 then return 0
    modify fun s => s.setAddr k i new
    return new
  else
    return addr

/-- `bmap` on one entry of an indirect block. -/
def bmapEntry (addr : UInt32) (j : Nat) : FilesM UInt32 := do
  let a := UInt32.ofNat (Words.word ((← get).block addr.toNat) j)
  if a = 0 then
    let new ← balloc sb
    if new ≠ 0 then
      let data := (← get).block addr.toNat
      logBlock addr.toNat (Words.setWord data j new.toNat)
    return new
  else
    return a

def bmap (k : InodeId) (bn : Nat) : FilesM UInt32 := do
  if h : bn < ndirect then
    bmapSlot sb k ⟨bn, Nat.lt_succ_of_lt h⟩
  else if bn - ndirect < nindirect then
    let addr ← bmapSlot sb k (Fin.last ndirect)
    if addr = 0 then return 0
    bmapEntry sb addr (bn - ndirect)
  else
    throw .bmap

def freeSlot (k : InodeId) (i : Fin (ndirect + 1)) : FilesM Unit := do
  let a := ((← get).inode k).addrs i
  if a ≠ 0 then
    bfree sb a
    modify fun s => s.setAddr k i 0

def freeEntry (addr : UInt32) (j : Nat) : FilesM Unit := do
  let a := UInt32.ofNat (Words.word ((← get).block addr.toNat) j)
  if a ≠ 0 then
    bfree sb a

/-- The second half of `itrunc`: the indirect block and the blocks in it. -/
def freeIndirect (k : InodeId) : FilesM Unit := do
  let addr := ((← get).inode k).addrs (Fin.last ndirect)
  if addr ≠ 0 then
    (List.range nindirect).forM (freeEntry sb addr)
    bfree sb addr
    modify fun s => s.setAddr k (Fin.last ndirect) 0

def itrunc (k : InodeId) : FilesM Unit := do
  (List.finRange ndirect).forM fun i => freeSlot sb k i.castSucc
  freeIndirect sb k
  modify fun s => s.setInode k { s.inode k with size := 0 }
  iupdate sb k

def iput (k : InodeId) : FilesM Unit := do
  let ip := (← get).inode k
  if ip.ref = 1 ∧ ip.valid = true ∧ ip.nlink = 0 then
    itrunc sb k
    modify fun s => s.setInode k { s.inode k with type := 0 }
    iupdate sb k
    modify fun s => s.setInode k { s.inode k with valid := false }
  modify fun s => s.setInode k { s.inode k with ref := (s.inode k).ref - 1 }

/-- The bytes that `either_copyin` copies: `src i` is the byte at `src + i`, if its page is mapped. -/
def copied (src : Nat → Option UInt8) (t m : Nat) : Nat :=
  ((List.range m).takeWhile fun i => (src (t + i)).isSome).length

/-- The data of a buffer after `either_copyin` of `m` bytes to offset `o`; the bytes before a page that
is not mapped are there even if it fails. -/
def copyIn (data : Block) (o : Nat) (src : Nat → Option UInt8) (t m : Nat) : Block := fun j =>
  if o ≤ j ∧ j < o + copied src t m then (src (t + (j - o))).getD (data j) else data j

/-- The loop of `writei`; it ends with `tot` and `off`. -/
def writeLoop (k : InodeId) (src : Nat → Option UInt8) (n tot off : Nat) : FilesM (Nat × Nat) :=
  if _h : tot < n then do
    let addr ← bmap sb k (off / bsize)
    if addr = 0 then return (tot, off)
    let m := min (n - tot) (bsize - off % bsize)
    let data := copyIn ((← get).block addr.toNat) (off % bsize) src tot m
    if copied src tot m ≠ m then
      modify fun s => s.setBlock addr.toNat data
      return (tot, off)
    logBlock addr.toNat data
    writeLoop k src n (tot + m) (off + m)
  else
    return (tot, off)
termination_by n - tot
decreasing_by
  have : off % bsize < bsize := Nat.mod_lt _ (by decide)
  omega

def writei (k : InodeId) (src : Nat → Option UInt8) (off n : UInt32) : FilesM Int := do
  let size := ((← get).inode k).size
  if size < off ∨ off + n < off then return -1
  if maxfile * bsize < (off + n).toNat then return -1
  let (tot, off') ← writeLoop sb k src n.toNat 0 off.toNat
  if size.toNat < off' then
    modify fun s => s.setInode k { s.inode k with size := UInt32.ofNat off' }
  iupdate sb k
  return tot

/-- The bytes that `either_copyout` copies: `dst i` says whether the page of `dst + i` is mapped. -/
def copiedOut (dst : Nat → Bool) (t m : Nat) : Nat :=
  ((List.range m).takeWhile fun i => dst (t + i)).length

/-- The byte of a buffer at an offset. -/
def byteOf (data : Block) (j : Nat) : UInt8 := if h : j < bsize then data ⟨j, h⟩ else 0

/-- `m` bytes of a buffer. -/
def bytesOf (data : Block) (o m : Nat) : List UInt8 := (List.range m).map fun i => byteOf data (o + i)

/-- The loop of `readi`; it ends with `tot` and the bytes that were copied out. -/
def readLoop (k : InodeId) (dst : Nat → Bool) (n tot off : Nat) (out : List UInt8) :
    FilesM (Int × List UInt8) :=
  if _h : tot < n then do
    let addr ← bmap sb k (off / bsize)
    if addr = 0 then return (tot, out)
    let m := min (n - tot) (bsize - off % bsize)
    let data := (← get).block addr.toNat
    if copiedOut dst tot m ≠ m then
      return (-1, out ++ bytesOf data (off % bsize) (copiedOut dst tot m))
    readLoop k dst n (tot + m) (off + m) (out ++ bytesOf data (off % bsize) m)
  else
    return (tot, out)
termination_by n - tot
decreasing_by
  have : off % bsize < bsize := Nat.mod_lt _ (by decide)
  omega

/-- `readi`: its result, and the bytes at `dst`. -/
def readi (k : InodeId) (dst : Nat → Bool) (off n : UInt32) : FilesM (Int × List UInt8) := do
  let size := ((← get).inode k).size
  if size < off ∨ off + n < off then return (0, [])
  let n := if size < off + n then size - off else n
  readLoop sb k dst n.toNat 0 off.toNat []

end Xv6
