import Xv6.SwapDisk.Queue

/-!
# RAID-backed swap storage

The rest of `kernel/swap_disk.c`: four simulated disks, the three address maps of `raid_write` and
`raid_read`, and the page-level interface `swap_out_page`, `swap_in_page`, `swap_disk_free_slot`.

A logical block `lb` lives in one *data cell* (a disk and a block on it, `dataCell`); RAID 1 and RAID 5
write one more cell, the mirror or the parity of the row (`writtenCells`). The three maps share the
same four disks; what keeps them apart is only the offset added to the block number, 0, 2048 or 4096.
-/

namespace Xv6.SwapDisk

/-- `NDISKS`. -/
abbrev ndisks : Nat := 4

/-- `DISK_BLOCKS_PER_DISK`. -/
abbrev diskBlocksPerDisk : Nat := 16384

/-- `BLOCKS_PER_PAGE`. -/
abbrev blocksPerPage : Nat := pgsize / bsize

inductive RaidMode where
  | raid0
  | raid1
  | raid5
  deriving DecidableEq, Repr

/-- `simulated_disks[disk][block]`. -/
abbrev Disks := Nat → Nat → Block

/-- The state of `kernel/swap_disk.c`. `stats` holds the disk counters of each `struct proc`, which
no other file writes; `slotMode` is `swap_slot_raid_mode`. -/
structure State where
  queue : DiskQueue
  stats : ProcId → DiskStats
  disks : Disks
  raidMode : RaidMode
  slotMode : Nat → RaidMode

abbrev DiskM := PanicM DiskPanic State

def zeroBlock : Block := fun _ => 0

def xorBlock (a b : Block) : Block := fun i => a i ^^^ b i

def setBlock (disks : Disks) (disk block : Nat) (data : Block) : Disks :=
  fun x y => if x = disk ∧ y = block then data else disks x y

/-- The bytes of the `i`-th block of a page, `page_data + i * BSIZE`. -/
def chunk (page : Page) (i : Fin blocksPerPage) : Block :=
  fun b => page ⟨i * bsize + b, by
    have hi : i.val < 4 := i.isLt
    have hb : b.val < 1024 := b.isLt
    show i.val * 1024 + b.val < 4096
    omega⟩

theorem chunkOffset_lt (o : Fin pgsize) : o.val % bsize < bsize := Nat.mod_lt _ (by decide)

def setChunk (page : Page) (i : Fin blocksPerPage) (data : Block) : Page :=
  fun o => if o.val / bsize = i then data ⟨o.val % bsize, chunkOffset_lt o⟩ else page o

/-! ## Physical blocks -/

/-- The offset `phys_write` and `phys_read` add to a block number. -/
def blockOffset : RaidMode → Nat
  | .raid0 => 0
  | .raid1 => 2048
  | .raid5 => 4096

def physWrite (disk block : Nat) (data : Block) (mode : RaidMode) : DiskM Unit :=
  let block := block + blockOffset mode
  if ndisks ≤ disk ∨ diskBlocksPerDisk ≤ block then throw .physWrite
  else modify fun d => { d with disks := setBlock d.disks disk block data }

def physRead (disk block : Nat) (mode : RaidMode) : DiskM Block :=
  let block := block + blockOffset mode
  if ndisks ≤ disk ∨ diskBlocksPerDisk ≤ block then throw .physRead
  else do
    let d ← get
    return d.disks disk block

/-- `disk_submit_and_dispatch`: latency accounting only, no data moves. -/
def diskSubmitAndDispatch (me : Caller) (block : Nat) (write : Bool) : DiskM Unit := fun d =>
  match dispatchOne me (Int32.ofNat block) write d.queue d.stats with
  | .error e => .error e
  | .ok (q, st) => .ok ((), { d with queue := q, stats := st })

/-! ## The three address maps -/

/-- RAID 1: which of the two mirrored pairs holds a logical block. -/
def raid1Pair (lb : Nat) : Nat := lb / diskBlocksPerDisk % 2

/-- RAID 5: the stripe row of a logical block. -/
def raid5Row (lb : Nat) : Nat := lb / (ndisks - 1)

/-- RAID 5: the disk that holds the parity of a row. -/
def parityDisk (row : Nat) : Nat := row % ndisks

/-- RAID 5: the disk of the `slot`-th data block of a row, which skips the parity disk. -/
def raid5Disk (lb : Nat) : Nat :=
  let slot := lb % (ndisks - 1)
  if slot < parityDisk (raid5Row lb) then slot else slot + 1

/-- The XOR of the blocks of one row on every disk but `skip`, as `raid_write` accumulates it. -/
def xorOthers (disks : Disks) (skip block : Nat) : Block :=
  (List.range ndisks).foldl
    (fun acc d => if d = skip then acc else xorBlock acc (disks d block)) zeroBlock

/-- `raid_write`. -/
def raidWrite (me : Caller) (lb : Nat) (data : Block) : RaidMode → DiskM Unit
  | .raid0 => do
    diskSubmitAndDispatch me (lb / ndisks) true
    physWrite (lb % ndisks) (lb / ndisks) data .raid0
  | .raid1 => do
    diskSubmitAndDispatch me (lb % diskBlocksPerDisk) true
    physWrite (raid1Pair lb * 2) (lb % diskBlocksPerDisk) data .raid1
    physWrite (raid1Pair lb * 2 + 1) (lb % diskBlocksPerDisk) data .raid1
  | .raid5 => do
    let row := raid5Row lb
    diskSubmitAndDispatch me row true
    physWrite (raid5Disk lb) row data .raid5
    -- parity is recomputed from scratch, from the three data blocks now on the disks
    let d ← get
    physWrite (parityDisk row) row (xorOthers d.disks (parityDisk row) (row + 4096)) .raid5

/-- `raid_read`. -/
def raidRead (me : Caller) (lb : Nat) : RaidMode → DiskM Block
  | .raid0 => do
    diskSubmitAndDispatch me (lb / ndisks) false
    physRead (lb % ndisks) (lb / ndisks) .raid0
  | .raid1 => do
    diskSubmitAndDispatch me (lb % diskBlocksPerDisk) false
    physRead (raid1Pair lb * 2) (lb % diskBlocksPerDisk) .raid1
  | .raid5 => do
    diskSubmitAndDispatch me (raid5Row lb) false
    physRead (raid5Disk lb) (raid5Row lb) .raid5

/-! ## Pages -/

/-- The loop of `swap_out_page`. -/
def writeChunks (me : Caller) (lb : Nat) (page : Page) (mode : RaidMode) :
    List (Fin blocksPerPage) → DiskM Unit
  | [] => pure ()
  | i :: is => do
    raidWrite me (lb + i) (chunk page i) mode
    writeChunks me lb page mode is

/-- The loop of `swap_in_page`, filling the buffer `page` block by block. -/
def readChunks (me : Caller) (lb : Nat) (mode : RaidMode) (page : Page) :
    List (Fin blocksPerPage) → DiskM Page
  | [] => pure page
  | i :: is => do
    let data ← raidRead me (lb + i) mode
    readChunks me lb mode (setChunk page i data) is

def swapOutPage (me : Caller) (page : Page) (slot : Nat) : DiskM Unit :=
  if maxSwap ≤ slot then throw .swapOutPage
  else do
    let d ← get
    let mode := d.raidMode
    modify fun d => { d with slotMode := Function.update d.slotMode slot mode }
    writeChunks me (slot * blocksPerPage) page mode (List.finRange blocksPerPage)

def swapInPage (me : Caller) (buf : Page) (slot : Nat) : DiskM Page :=
  if maxSwap ≤ slot then throw .swapInPage
  else do
    let d ← get
    readChunks me (slot * blocksPerPage) (d.slotMode slot) buf (List.finRange blocksPerPage)

/-- What `swap_disk_free_slot` zeroes for one logical block. These are plain `memset`s: nothing
checks that the block lies on the disk. -/
def zeroCells (lb : Nat) (disks : Disks) : RaidMode → Disks
  | .raid0 => setBlock disks (lb % ndisks) (lb / ndisks) zeroBlock
  | .raid1 =>
    let disks := setBlock disks (raid1Pair lb * 2) (lb % diskBlocksPerDisk + 2048) zeroBlock
    setBlock disks (raid1Pair lb * 2 + 1) (lb % diskBlocksPerDisk + 2048) zeroBlock
  | .raid5 =>
    let disks := setBlock disks (raid5Disk lb) (raid5Row lb + 4096) zeroBlock
    setBlock disks (parityDisk (raid5Row lb)) (raid5Row lb + 4096) zeroBlock

def swapDiskFreeSlot (slot : Nat) (d : State) : State :=
  if maxSwap ≤ slot then d
  else
    { d with
      disks := (List.finRange blocksPerPage).foldl
        (fun disks (i : Fin blocksPerPage) =>
          zeroCells (slot * blocksPerPage + i) disks (d.slotMode slot)) d.disks
      slotMode := Function.update d.slotMode slot .raid0 }

/-- The RAID mode an `int` of the source stands for. -/
def RaidMode.ofInt (mode : Int) : Option RaidMode :=
  if mode = 0 then some .raid0
  else if mode = 1 then some .raid1
  else if mode = 2 then some .raid5
  else none

/-- `setraidmode`: `-1` and no change for a number that is no mode. -/
def setraidmode (mode : Int) (d : State) : Int × State :=
  match RaidMode.ofInt mode with
  | none => (-1, d)
  | some m => (0, { d with raidMode := m })

/-- `swap_disk_init`; the request table and the process counters are zero before it, as static
data. -/
def swapDiskInit : State where
  queue :=
    { reqs := fun _ => ⟨false, 0, false, none, 0⟩
      head := 0
      policy := .fcfs
      totalLatency := 0
      totalRequests := 0 }
  stats := fun _ => ⟨0, 0, 0⟩
  disks := fun _ _ => zeroBlock
  raidMode := .raid0
  slotMode := fun _ => .raid0

end Xv6.SwapDisk
