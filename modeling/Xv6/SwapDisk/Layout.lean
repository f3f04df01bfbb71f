import Mathlib.Tactic.SplitIfs
import Xv6.SwapDisk.Raid

/-!
# Where a slot lives on the disks

Each of `raid_write`, `raid_read` and `swap_disk_free_slot` does latency accounting and moves blocks.
Here the two are taken apart once: on an idle queue a call is its accounting together with a pure
effect on the disks (`raidWrite_run`, `raidRead_run`), and it panics exactly when the physical block
lies outside the disk (`raidWrite_panic`). Everything later is about the pure effects.
-/

namespace Xv6.SwapDisk

open List

/-- A block on a disk: the disk and the physical block number. -/
abbrev Cell := Nat × Nat

/-- The cell from which `raid_read` takes a logical block. -/
def dataCell : RaidMode → Nat → Cell
  | .raid0, lb => (lb % ndisks, lb / ndisks)
  | .raid1, lb => (raid1Pair lb * 2, lb % diskBlocksPerDisk + 2048)
  | .raid5, lb => (raid5Disk lb, raid5Row lb + 4096)

/-- The cells `raid_write` and `swap_disk_free_slot` overwrite for a logical block. -/
def writtenCells : RaidMode → Nat → List Cell
  | .raid0, lb => [dataCell .raid0 lb]
  | .raid1, lb => [dataCell .raid1 lb, (raid1Pair lb * 2 + 1, lb % diskBlocksPerDisk + 2048)]
  | .raid5, lb => [dataCell .raid5 lb, (parityDisk (raid5Row lb), raid5Row lb + 4096)]

/-- A cell that exists: a disk `0..3` and a block `0..DISK_BLOCKS_PER_DISK-1`. -/
def Cell.OnDisk (c : Cell) : Prop := c.1 < ndisks ∧ c.2 < diskBlocksPerDisk

instance (c : Cell) : Decidable c.OnDisk := inferInstanceAs (Decidable (_ ∧ _))

/-- The physical block of a logical block lies on the disk. -/
def BlockFits (mode : RaidMode) (lb : Nat) : Prop := (dataCell mode lb).2 < diskBlocksPerDisk

theorem raid1Pair_le (lb : Nat) : raid1Pair lb ≤ 1 := by
  unfold raid1Pair
  omega

theorem raid5Disk_lt (lb : Nat) : raid5Disk lb < ndisks := by
  have hpar : parityDisk (raid5Row lb) < 4 := Nat.mod_lt _ (by decide)
  simp only [raid5Disk, ndisks] at *
  split_ifs <;> omega

/-- The data blocks of a row never sit on the parity disk of that row. -/
theorem raid5Disk_ne_parityDisk (lb : Nat) : raid5Disk lb ≠ parityDisk (raid5Row lb) := by
  simp only [raid5Disk]
  split_ifs <;> omega

/-- The RAID 5 map is injective: in one row the place of a block decides its disk. -/
theorem raid5_injective {lb lb' : Nat} (hd : raid5Disk lb = raid5Disk lb')
    (hr : raid5Row lb = raid5Row lb') : lb = lb' := by
  have hr' : lb / 3 = lb' / 3 := hr
  simp only [raid5Disk, hr, ndisks, Nat.reduceSub] at hd
  generalize parityDisk (raid5Row lb') = par at hd
  split at hd <;> split at hd <;> omega

/-- Every cell of a logical block has a legal disk number, and the same block number as the data
cell; so whether a block is on the disks depends on its data cell only. -/
theorem onDisk_of_mem_writtenCells {mode : RaidMode} {lb : Nat} {c : Cell}
    (hc : c ∈ writtenCells mode lb) : c.OnDisk ↔ BlockFits mode lb := by
  have hp := raid1Pair_le lb
  have h5 := raid5Disk_lt lb
  have hpar : parityDisk (raid5Row lb) < ndisks := Nat.mod_lt _ (by decide)
  have h0 : lb % ndisks < ndisks := Nat.mod_lt _ (by decide)
  cases mode with
  | raid0 =>
    simp only [writtenCells, mem_singleton] at hc
    subst hc
    exact ⟨fun h => h.2, fun h => ⟨h0, h⟩⟩
  | raid1 =>
    simp only [writtenCells, mem_cons, not_mem_nil, or_false] at hc
    rcases hc with rfl | rfl
    · exact ⟨fun h => h.2, fun h => ⟨by simp only [dataCell, ndisks]; omega, h⟩⟩
    · exact ⟨fun h => h.2, fun h => ⟨by simp only [ndisks]; omega, h⟩⟩
  | raid5 =>
    simp only [writtenCells, mem_cons, not_mem_nil, or_false] at hc
    rcases hc with rfl | rfl
    · exact ⟨fun h => h.2, fun h => ⟨h5, h⟩⟩
    · exact ⟨fun h => h.2, fun h => ⟨hpar, h⟩⟩

/-! ## The pure effects -/

theorem setBlock_self (disks : Disks) (x y : Nat) (data : Block) :
    setBlock disks x y data x y = data := by
  simp [setBlock]

theorem setBlock_of_ne (disks : Disks) {c : Cell} {x y : Nat} (data : Block) (h : c ≠ (x, y)) :
    setBlock disks x y data c.1 c.2 = disks c.1 c.2 := by
  unfold setBlock
  rw [if_neg]
  rintro ⟨rfl, rfl⟩
  exact h rfl

/-- The effect of `raid_write` on the disks. -/
def storeBlock (mode : RaidMode) (lb : Nat) (data : Block) (disks : Disks) : Disks :=
  match mode with
  | .raid0 => setBlock disks (lb % ndisks) (lb / ndisks) data
  | .raid1 =>
    setBlock (setBlock disks (raid1Pair lb * 2) (lb % diskBlocksPerDisk + 2048) data)
      (raid1Pair lb * 2 + 1) (lb % diskBlocksPerDisk + 2048) data
  | .raid5 =>
    let row := raid5Row lb
    let disks := setBlock disks (raid5Disk lb) (row + 4096) data
    setBlock disks (parityDisk row) (row + 4096) (xorOthers disks (parityDisk row) (row + 4096))

/-- The data cell gets the data. -/
theorem storeBlock_data (mode : RaidMode) (lb : Nat) (data : Block) (disks : Disks) :
    storeBlock mode lb data disks (dataCell mode lb).1 (dataCell mode lb).2 = data := by
  cases mode with
  | raid0 => exact setBlock_self _ _ _ _
  | raid1 =>
    have hne : dataCell .raid1 lb ≠ (raid1Pair lb * 2 + 1, lb % diskBlocksPerDisk + 2048) := by
      simp [dataCell]
    exact (setBlock_of_ne _ _ hne).trans (setBlock_self _ _ _ _)
  | raid5 =>
    have hne : dataCell .raid5 lb ≠ (parityDisk (raid5Row lb), raid5Row lb + 4096) := by
      simp [dataCell, raid5Disk_ne_parityDisk]
    exact (setBlock_of_ne _ _ hne).trans (setBlock_self _ _ _ _)

/-- All other cells stay. -/
theorem storeBlock_of_notMem {mode : RaidMode} {lb : Nat} {c : Cell} (data : Block)
    (disks : Disks) (hc : c ∉ writtenCells mode lb) :
    storeBlock mode lb data disks c.1 c.2 = disks c.1 c.2 := by
  cases mode with
  | raid0 =>
    simp only [writtenCells, mem_singleton] at hc
    exact setBlock_of_ne _ _ hc
  | raid1 =>
    simp only [writtenCells, mem_cons, not_mem_nil, or_false, not_or] at hc
    exact (setBlock_of_ne _ _ hc.2).trans (setBlock_of_ne _ _ hc.1)
  | raid5 =>
    simp only [writtenCells, mem_cons, not_mem_nil, or_false, not_or] at hc
    exact (setBlock_of_ne _ _ hc.2).trans (setBlock_of_ne _ _ hc.1)

theorem zeroCells_of_notMem {mode : RaidMode} {lb : Nat} {c : Cell} (disks : Disks)
    (hc : c ∉ writtenCells mode lb) : zeroCells lb disks mode c.1 c.2 = disks c.1 c.2 := by
  cases mode with
  | raid0 =>
    simp only [writtenCells, mem_singleton] at hc
    exact setBlock_of_ne _ _ hc
  | raid1 =>
    simp only [writtenCells, mem_cons, not_mem_nil, or_false, not_or] at hc
    exact (setBlock_of_ne _ _ hc.2).trans (setBlock_of_ne _ _ hc.1)
  | raid5 =>
    simp only [writtenCells, mem_cons, not_mem_nil, or_false, not_or] at hc
    exact (setBlock_of_ne _ _ hc.2).trans (setBlock_of_ne _ _ hc.1)

/-! ## Accounting and effect, taken apart -/

/-- The accounting of one request on an idle queue. -/
theorem diskSubmitAndDispatch_run {d : State} (hq : d.queue.Idle) (me : Caller) (block : Nat)
    (write : Bool) :
    ∃ q st, q.Idle ∧ diskSubmitAndDispatch me block write d
      = .ok ((), { d with queue := q, stats := st }) := by
  obtain ⟨slot, hrun⟩ := dispatchOne_idle hq me (Int32.ofNat block) write d.stats
  unfold diskSubmitAndDispatch
  rw [hrun]
  exact ⟨_, _, hq.served slot _, rfl⟩

theorem physWrite_run {d : State} {disk block : Nat} {mode : RaidMode} (data : Block)
    (hdisk : disk < ndisks) (hblock : block + blockOffset mode < diskBlocksPerDisk) :
    physWrite disk block data mode d
      = .ok ((), { d with disks := setBlock d.disks disk (block + blockOffset mode) data }) := by
  unfold physWrite
  rw [if_neg (by omega)]
  rfl

/-- `phys_write` panics beyond the end of the disk. -/
theorem physWrite_panic {d : State} {disk block : Nat} {mode : RaidMode} (data : Block)
    (hblock : ¬ block + blockOffset mode < diskBlocksPerDisk) :
    physWrite disk block data mode d = .error .physWrite := by
  unfold physWrite
  rw [if_pos (Or.inr (by omega))]
  rfl

theorem physRead_run {d : State} {disk block : Nat} {mode : RaidMode}
    (hdisk : disk < ndisks) (hblock : block + blockOffset mode < diskBlocksPerDisk) :
    physRead disk block mode d = .ok (d.disks disk (block + blockOffset mode), d) := by
  unfold physRead
  rw [if_neg (by omega)]
  rfl

/-- `phys_read` panics beyond the end of the disk. -/
theorem physRead_panic {d : State} {disk block : Nat} {mode : RaidMode}
    (hblock : ¬ block + blockOffset mode < diskBlocksPerDisk) :
    physRead disk block mode d = .error .physRead := by
  unfold physRead
  rw [if_pos (Or.inr (by omega))]
  rfl

/-- A block that fits on the disks is written: accounting, then the effect. -/
theorem raidWrite_run {d : State} (hq : d.queue.Idle) (me : Caller) {lb : Nat} (data : Block)
    {mode : RaidMode} (hfit : BlockFits mode lb) :
    ∃ q st, q.Idle ∧ raidWrite me lb data mode d
      = .ok ((), { d with queue := q, stats := st, disks := storeBlock mode lb data d.disks }) := by
  have hp := raid1Pair_le lb
  cases mode with
  | raid0 =>
    obtain ⟨q, st, hidle, hacc⟩ := diskSubmitAndDispatch_run hq me (lb / ndisks) true
    have h0 : lb % ndisks < ndisks := Nat.mod_lt _ (by decide)
    have hblk : lb / ndisks + blockOffset .raid0 < diskBlocksPerDisk := hfit
    exact ⟨q, st, hidle, (PanicM.bind_of_ok hacc).trans (physWrite_run data h0 hblk)⟩
  | raid1 =>
    obtain ⟨q, st, hidle, hacc⟩ := diskSubmitAndDispatch_run hq me (lb % diskBlocksPerDisk) true
    have ha : raid1Pair lb * 2 < 4 := by omega
    have hb : raid1Pair lb * 2 + 1 < 4 := by omega
    have hblk : lb % diskBlocksPerDisk + blockOffset .raid1 < diskBlocksPerDisk := hfit
    exact ⟨q, st, hidle, (PanicM.bind_of_ok hacc).trans
      ((PanicM.bind_of_ok (physWrite_run data ha hblk)).trans (physWrite_run data hb hblk))⟩
  | raid5 =>
    obtain ⟨q, st, hidle, hacc⟩ := diskSubmitAndDispatch_run hq me (raid5Row lb) true
    have hpar : parityDisk (raid5Row lb) < ndisks := Nat.mod_lt _ (by decide)
    have hblk : raid5Row lb + blockOffset .raid5 < diskBlocksPerDisk := hfit
    exact ⟨q, st, hidle, (PanicM.bind_of_ok hacc).trans
      ((PanicM.bind_of_ok (physWrite_run data (raid5Disk_lt lb) hblk)).trans
        (physWrite_run _ hpar hblk))⟩

/-- A block that does not fit panics in `phys_write`. -/
theorem raidWrite_panic {d : State} (hq : d.queue.Idle) (me : Caller) {lb : Nat} (data : Block)
    {mode : RaidMode} (hfit : ¬ BlockFits mode lb) :
    raidWrite me lb data mode d = .error .physWrite := by
  cases mode with
  | raid0 =>
    obtain ⟨q, st, -, hacc⟩ := diskSubmitAndDispatch_run hq me (lb / ndisks) true
    simp only [raidWrite, PanicM.bind_of_ok hacc]
    exact physWrite_panic data hfit
  | raid1 =>
    obtain ⟨q, st, -, hacc⟩ := diskSubmitAndDispatch_run hq me (lb % diskBlocksPerDisk) true
    simp only [raidWrite, PanicM.bind_of_ok hacc]
    exact PanicM.bind_of_error (physWrite_panic data hfit)
  | raid5 =>
    obtain ⟨q, st, -, hacc⟩ := diskSubmitAndDispatch_run hq me (raid5Row lb) true
    simp only [raidWrite, PanicM.bind_of_ok hacc]
    exact PanicM.bind_of_error (physWrite_panic data hfit)

/-- Reading a block that fits returns its data cell and moves no block. -/
theorem raidRead_run {d : State} (hq : d.queue.Idle) (me : Caller) {lb : Nat} {mode : RaidMode}
    (hfit : BlockFits mode lb) :
    ∃ q st, q.Idle ∧ raidRead me lb mode d
      = .ok (d.disks (dataCell mode lb).1 (dataCell mode lb).2,
          { d with queue := q, stats := st }) := by
  have hp := raid1Pair_le lb
  cases mode with
  | raid0 =>
    obtain ⟨q, st, hidle, hacc⟩ := diskSubmitAndDispatch_run hq me (lb / ndisks) false
    have h0 : lb % ndisks < ndisks := Nat.mod_lt _ (by decide)
    exact ⟨q, st, hidle, (PanicM.bind_of_ok hacc).trans (physRead_run h0 hfit)⟩
  | raid1 =>
    obtain ⟨q, st, hidle, hacc⟩ := diskSubmitAndDispatch_run hq me (lb % diskBlocksPerDisk) false
    have ha : raid1Pair lb * 2 < 4 := by omega
    exact ⟨q, st, hidle, (PanicM.bind_of_ok hacc).trans (physRead_run ha hfit)⟩
  | raid5 =>
    obtain ⟨q, st, hidle, hacc⟩ := diskSubmitAndDispatch_run hq me (raid5Row lb) false
    exact ⟨q, st, hidle, (PanicM.bind_of_ok hacc).trans (physRead_run (raid5Disk_lt lb) hfit)⟩

/-- Reading a block that does not fit panics in `phys_read`. -/
theorem raidRead_panic {d : State} (hq : d.queue.Idle) (me : Caller) {lb : Nat} {mode : RaidMode}
    (hfit : ¬ BlockFits mode lb) : raidRead me lb mode d = .error .physRead := by
  cases mode with
  | raid0 =>
    obtain ⟨q, st, -, hacc⟩ := diskSubmitAndDispatch_run hq me (lb / ndisks) false
    exact (PanicM.bind_of_ok hacc).trans (physRead_panic hfit)
  | raid1 =>
    obtain ⟨q, st, -, hacc⟩ := diskSubmitAndDispatch_run hq me (lb % diskBlocksPerDisk) false
    exact (PanicM.bind_of_ok hacc).trans (physRead_panic hfit)
  | raid5 =>
    obtain ⟨q, st, -, hacc⟩ := diskSubmitAndDispatch_run hq me (raid5Row lb) false
    exact (PanicM.bind_of_ok hacc).trans (physRead_panic hfit)

end Xv6.SwapDisk
