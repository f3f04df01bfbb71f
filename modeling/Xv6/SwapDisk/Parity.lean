import Mathlib.Tactic.IntervalCases
import Xv6.SwapDisk.Flat

/-!
# RAID 5 parity

Row `r` of the RAID 5 region is block `r + 4096` of the four disks; disk `r mod 4` holds the parity of
the other three. The row is consistent exactly when the XOR of all four blocks is zero (`rowXor`,
`parityOk_iff`), and then any one disk can be rebuilt from the other three.

`raid_write` recomputes the parity of its row from scratch, so a write always repairs the row
(`rowXor_storeBlock_self`). `swap_disk_free_slot` zeroes the data *and the parity* of each of its rows;
a page is four blocks and a row holds three, so such a row may still carry blocks of a neighbouring
slot. The parity is then right only if those blocks cancel out, `FreeSafe` (`rowXor_freed`).
-/

namespace Xv6.SwapDisk

open Function Transition List

/-- The parity block of row `r` is the XOR of the other three blocks. -/
def ParityOk (disks : Disks) (r : Nat) : Prop :=
  disks (parityDisk r) (r + 4096) = xorOthers disks (parityDisk r) (r + 4096)

/-- Each block of row `r` is the XOR of the other three. -/
def Rebuildable (disks : Disks) (r : Nat) : Prop :=
  ∀ d < ndisks, disks d (r + 4096) = xorOthers disks d (r + 4096)

/-- The XOR of the four blocks of a row. -/
def rowXor (disks : Disks) (block : Nat) : Block :=
  xorBlock (xorBlock (disks 0 block) (disks 1 block)) (xorBlock (disks 2 block) (disks 3 block))

/-! ## Blocks under XOR -/

theorem xorBlock_comm (a b : Block) : xorBlock a b = xorBlock b a := by
  funext i
  exact UInt8.xor_comm _ _

theorem xorBlock_assoc (a b c : Block) :
    xorBlock (xorBlock a b) c = xorBlock a (xorBlock b c) := by
  funext i
  exact UInt8.xor_assoc _ _ _

theorem xorBlock_left_comm (a b c : Block) :
    xorBlock a (xorBlock b c) = xorBlock b (xorBlock a c) := by
  rw [← xorBlock_assoc, xorBlock_comm a b, xorBlock_assoc]

@[simp] theorem xorBlock_zero (a : Block) : xorBlock a zeroBlock = a := by
  funext i
  exact UInt8.xor_zero

@[simp] theorem zero_xorBlock (a : Block) : xorBlock zeroBlock a = a := by
  funext i
  exact UInt8.zero_xor

theorem xorBlock_eq_zero_iff {a b : Block} : xorBlock a b = zeroBlock ↔ a = b := by
  constructor
  · intro h
    funext i
    have := congrFun h i
    exact UInt8.xor_eq_zero_iff.mp this
  · rintro rfl
    funext i
    exact UInt8.xor_self

/-- A block together with the XOR of the other three is the XOR of the row. -/
theorem xorBlock_xorOthers (disks : Disks) {skip : Nat} (h : skip < ndisks) (block : Nat) :
    xorBlock (disks skip block) (xorOthers disks skip block) = rowXor disks block := by
  have hrange : List.range ndisks = [0, 1, 2, 3] := rfl
  have h4 : skip < 4 := h
  unfold xorOthers rowXor
  rw [hrange]
  interval_cases skip <;>
    simp [xorBlock_comm, xorBlock_left_comm]

/-- **One condition for parity and for rebuilding**: the row XORs to zero. -/
theorem parityOk_iff (disks : Disks) (r : Nat) :
    ParityOk disks r ↔ rowXor disks (r + 4096) = zeroBlock := by
  have hlt : parityDisk r < ndisks := Nat.mod_lt _ (by decide)
  rw [← xorBlock_xorOthers disks hlt, xorBlock_eq_zero_iff]
  rfl

/-- A row that adds up to zero can be rebuilt. -/
theorem rebuildable_of_rowXor {disks : Disks} {r : Nat}
    (h : rowXor disks (r + 4096) = zeroBlock) : Rebuildable disks r := by
  intro d hd
  rw [← xorBlock_eq_zero_iff, xorBlock_xorOthers disks hd]
  exact h

theorem rowXor_congr {disks disks' : Disks} {block : Nat}
    (h : ∀ d, disks' d block = disks d block) : rowXor disks' block = rowXor disks block := by
  simp only [rowXor, h]

/-! ## Writing repairs the row -/

/-- Overwriting the skipped disk does not change the XOR of the others. -/
theorem xorOthers_setBlock_self (disks : Disks) (skip block : Nat) (data : Block) :
    xorOthers (setBlock disks skip block data) skip block = xorOthers disks skip block := by
  unfold xorOthers
  congr 1
  funext acc d
  by_cases hd : d = skip
  · simp [hd]
  · simp [hd, setBlock]

/-- A write makes its row add up to zero. -/
theorem rowXor_storeBlock_self (lb : Nat) (data : Block) (disks : Disks) :
    rowXor (storeBlock .raid5 lb data disks) (raid5Row lb + 4096) = zeroBlock := by
  have hlt : parityDisk (raid5Row lb) < ndisks := Nat.mod_lt _ (by decide)
  rw [← xorBlock_xorOthers _ hlt, xorBlock_eq_zero_iff]
  unfold storeBlock
  dsimp only
  rw [setBlock_self, xorOthers_setBlock_self]

/-- A write leaves the other rows. -/
theorem rowXor_storeBlock_other {lb block : Nat} (data : Block) (disks : Disks)
    (h : block ≠ raid5Row lb + 4096) :
    rowXor (storeBlock .raid5 lb data disks) block = rowXor disks block := by
  apply rowXor_congr
  intro d
  apply storeBlock_of_notMem (c := (d, block))
  simp [writtenCells, dataCell, h]

/-- A page written under RAID 5 keeps every row consistent. -/
theorem rowXor_storeChunks (slot : Nat) (page : Page) (is : List (Fin blocksPerPage)) :
    ∀ disks : Disks, (∀ block, 4096 ≤ block → rowXor disks block = zeroBlock) →
      ∀ block, 4096 ≤ block → rowXor (storeChunks .raid5 slot page is disks) block = zeroBlock := by
  induction is with
  | nil => exact fun _ h => h
  | cons i is ih =>
    intro disks h
    apply ih
    intro block hblock
    by_cases hb : block = raid5Row (slotBlock slot i) + 4096
    · rw [hb, rowXor_storeBlock_self]
    · rw [rowXor_storeBlock_other _ _ hb]
      exact h block hblock

/-! ## One block -/

/-- The value that `raid_read` returns depends on the data cell of the block only. -/
theorem raidRead_congr {d d' : State} (hq : d.queue.Idle) (hq' : d'.queue.Idle) (me : Caller)
    {lb : Nat} {mode : RaidMode}
    (h : d'.disks (dataCell mode lb).1 (dataCell mode lb).2 =
      d.disks (dataCell mode lb).1 (dataCell mode lb).2) :
    Except.map Prod.fst (raidRead me lb mode d') = Except.map Prod.fst (raidRead me lb mode d) := by
  by_cases hfit : BlockFits mode lb
  · obtain ⟨q, st, -, hread⟩ := raidRead_run hq me hfit
    obtain ⟨q', st', -, hread'⟩ := raidRead_run hq' me hfit
    rw [hread, hread', h]
    rfl
  · rw [raidRead_panic hq me hfit, raidRead_panic hq' me hfit]

/-- No other block of the RAID 5 region is among the cells that a write of `lb` touches. -/
theorem dataCell_raid5_notMem {lb lb' : Nat} (h : lb' ≠ lb) :
    dataCell .raid5 lb' ∉ writtenCells .raid5 lb := by
  simp only [writtenCells, dataCell, mem_cons, not_mem_nil, or_false, not_or, Prod.mk.injEq]
  constructor
  · rintro ⟨hd, hr⟩
    exact h (raid5_injective hd (by omega))
  · rintro ⟨hd, hr⟩
    have hrow : raid5Row lb' = raid5Row lb := by omega
    exact raid5Disk_ne_parityDisk lb' (by rw [hrow]; exact hd)

/-- **Writing one block** under RAID 5, whatever is on the disks: the block reads back, every other
block reads as before, and the row of the block can be rebuilt from any three disks. Two blocks never
share a cell, and none lies on the parity disk of its row. -/
theorem raid5_write_read (d : State) (hq : d.queue.Idle) (me : Caller) (lb : Nat)
    (hrow : lb / 3 + 4096 < diskBlocksPerDisk) (data : Block) :
    (∃ d', raidWrite me lb data .raid5 d = .ok ((), d') ∧
      (∀ me', ∃ d'', raidRead me' lb .raid5 d' = .ok (data, d'')) ∧
      (∀ me' lb', lb' ≠ lb → Except.map Prod.fst (raidRead me' lb' .raid5 d') =
        Except.map Prod.fst (raidRead me' lb' .raid5 d)) ∧
      Rebuildable d'.disks (lb / 3)) ∧
    Function.Injective (fun b => (raid5Disk b, raid5Row b)) ∧
    ∀ b, raid5Disk b ≠ parityDisk (raid5Row b) := by
  have hfit : BlockFits .raid5 lb := hrow
  refine ⟨?_, fun a b h => ?_, raid5Disk_ne_parityDisk⟩
  · obtain ⟨q, st, hidle, hrun⟩ := raidWrite_run hq me data hfit
    refine ⟨_, hrun, ?_, ?_, ?_⟩
    · intro me'
      obtain ⟨q', st', -, hread⟩ := raidRead_run
        (d := { d with queue := q, stats := st, disks := storeBlock .raid5 lb data d.disks })
        hidle me' hfit
      dsimp only at hread
      rw [storeBlock_data] at hread
      exact ⟨_, hread⟩
    · intro me' lb' hne
      exact raidRead_congr hq hidle me' (storeBlock_of_notMem data d.disks (dataCell_raid5_notMem hne))
    · exact rebuildable_of_rowXor (rowXor_storeBlock_self lb data d.disks)
  · injection h with hd hr
    exact raid5_injective hd hr

/-- The first block, on empty disks. -/
theorem raid5_write_read_first : ∃ d', raidWrite ⟨0, 0⟩ 0 (fun _ => 7) .raid5 swapDiskInit = .ok ((), d') ∧
    Rebuildable d'.disks 0 := by
  obtain ⟨⟨d', hrun, -, -, hrow⟩, -⟩ :=
    raid5_write_read swapDiskInit (fun _ => rfl) ⟨0, 0⟩ 0 (by decide) fun _ => 7
  exact ⟨d', hrun, hrow⟩

/-! ## Freeing a slot -/

/-- The `k`-th data block of row `r`. -/
def rowData (disks : Disks) (r k : Nat) : Block := disks (raid5Disk (3 * r + k)) (r + 4096)

/-- The XOR of the data blocks of row `r` that belong to other slots. -/
def restXor (disks : Disks) (slot r : Nat) : Block :=
  let rest k := if (3 * r + k) / blocksPerPage = slot then zeroBlock else rowData disks r k
  xorBlock (rest 0) (xorBlock (rest 1) (rest 2))

/-- Seen from the RAID 5 map, a row is its parity block and its three data blocks. -/
theorem rowXor_eq (disks : Disks) (r : Nat) :
    rowXor disks (r + 4096) = xorBlock (disks (parityDisk r) (r + 4096))
      (xorBlock (rowData disks r 0) (xorBlock (rowData disks r 1) (rowData disks r 2))) := by
  have hrow : ∀ k < 3, raid5Row (3 * r + k) = r := by
    intro k hk
    show (3 * r + k) / 3 = r
    omega
  have hmod : ∀ k < 3, (3 * r + k) % (ndisks - 1) = k := by
    intro k hk
    show (3 * r + k) % 3 = k
    omega
  have hp : parityDisk r < 4 := Nat.mod_lt _ (by decide)
  unfold rowData raid5Disk rowXor
  simp only [hrow, hmod, Nat.lt_add_one, Nat.one_lt_ofNat, Nat.ofNat_pos]
  generalize parityDisk r = p at *
  interval_cases p <;> simp [xorBlock_comm, xorBlock_left_comm]

theorem zeroCells_mem {mode : RaidMode} {lb : Nat} {c : Cell} (disks : Disks)
    (hc : c ∈ writtenCells mode lb) : zeroCells lb disks mode c.1 c.2 = zeroBlock := by
  cases mode with
  | raid0 =>
    simp only [writtenCells, mem_singleton] at hc
    subst hc
    exact setBlock_self _ _ _ _
  | raid1 =>
    simp only [writtenCells, mem_cons, not_mem_nil, or_false] at hc
    rcases hc with rfl | rfl
    · have hne : dataCell .raid1 lb ≠ (raid1Pair lb * 2 + 1, lb % diskBlocksPerDisk + 2048) := by
        simp [dataCell]
      exact (setBlock_of_ne _ _ hne).trans (setBlock_self _ _ _ _)
    · exact setBlock_self _ _ _ _
  | raid5 =>
    simp only [writtenCells, mem_cons, not_mem_nil, or_false] at hc
    rcases hc with rfl | rfl
    · have hne : dataCell .raid5 lb ≠ (parityDisk (raid5Row lb), raid5Row lb + 4096) := by
        simp [dataCell, raid5Disk_ne_parityDisk]
      exact (setBlock_of_ne _ _ hne).trans (setBlock_self _ _ _ _)
    · exact setBlock_self _ _ _ _

/-- A freed block is zero if it is one of the slot's cells and untouched otherwise. -/
theorem freedDisks_apply (mode : RaidMode) (slot : Nat) (c : Cell)
    (is : List (Fin blocksPerPage)) : ∀ disks : Disks,
    freedDisks mode slot is disks c.1 c.2 =
      if ∃ i ∈ is, c ∈ writtenCells mode (slotBlock slot i) then zeroBlock else disks c.1 c.2 := by
  induction is with
  | nil =>
    intro disks
    simp [freedDisks]
  | cons i is ih =>
    intro disks
    have hstep := ih (zeroCells (slotBlock slot i) disks mode)
    show freedDisks mode slot is (zeroCells (slotBlock slot i) disks mode) c.1 c.2 = _
    rw [hstep]
    by_cases hrest : ∃ j ∈ is, c ∈ writtenCells mode (slotBlock slot j)
    · obtain ⟨j, hj, hjc⟩ := hrest
      rw [if_pos ⟨j, hj, hjc⟩, if_pos ⟨j, mem_cons_of_mem _ hj, hjc⟩]
    · rw [if_neg hrest]
      by_cases hi : c ∈ writtenCells mode (slotBlock slot i)
      · rw [if_pos ⟨i, mem_cons_self, hi⟩, zeroCells_mem disks hi]
      · rw [if_neg, zeroCells_of_notMem disks hi]
        rintro ⟨j, hj, hjc⟩
        rcases mem_cons.mp hj with rfl | hj
        · exact hi hjc
        · exact hrest ⟨j, hj, hjc⟩

/-- A slot has a block in row `r`. -/
def TouchesRow (slot r : Nat) : Prop := ∃ i, raid5Row (slotBlock slot i) = r

/-- **What freeing does to a row**: a row the slot touches is left with the blocks of the other slots
and a zero parity, every other row is as before. -/
theorem rowXor_freed (disks : Disks) (slot r : Nat) :
    (TouchesRow slot r →
      rowXor (freedDisks .raid5 slot (List.finRange blocksPerPage) disks) (r + 4096)
        = restXor disks slot r) ∧
    (¬ TouchesRow slot r →
      rowXor (freedDisks .raid5 slot (List.finRange blocksPerPage) disks) (r + 4096)
        = rowXor disks (r + 4096)) := by
  have happly := freedDisks_apply .raid5 slot
  constructor
  · rintro ⟨i, hi⟩
    -- the parity block of a touched row is one of the zeroed cells
    have hpar : freedDisks .raid5 slot (List.finRange blocksPerPage) disks (parityDisk r)
        (r + 4096) = zeroBlock := by
      rw [happly (parityDisk r, r + 4096), if_pos]
      exact ⟨i, mem_finRange i, by simp [writtenCells, hi]⟩
    -- a data block is zeroed exactly when its logical block belongs to the slot
    have hdata : ∀ k < 3, rowData (freedDisks .raid5 slot (List.finRange blocksPerPage) disks) r k
        = if (3 * r + k) / blocksPerPage = slot then zeroBlock else rowData disks r k := by
      intro k hk
      have hrow : raid5Row (3 * r + k) = r := by
        show (3 * r + k) / 3 = r
        omega
      unfold rowData
      rw [happly (raid5Disk (3 * r + k), r + 4096)]
      congr 1
      apply propext
      constructor
      · rintro ⟨j, -, hmem⟩
        have hj : j.val < 4 := j.isLt
        simp only [writtenCells, dataCell, mem_cons, not_mem_nil, or_false,
          Prod.mk.injEq] at hmem
        rcases hmem with ⟨hd, hr⟩ | ⟨hd, hr⟩
        · have hlb : 3 * r + k = slotBlock slot j := raid5_injective hd (by omega)
          have hlb' : 3 * r + k = slot * 4 + j := hlb
          show (3 * r + k) / 4 = slot
          omega
        · have hrj : raid5Row (slotBlock slot j) = raid5Row (3 * r + k) := by omega
          rw [hrj] at hd
          exact absurd hd (raid5Disk_ne_parityDisk _)
      · intro hslot
        have hslot' : (3 * r + k) / 4 = slot := hslot
        refine ⟨⟨(3 * r + k) % 4, Nat.mod_lt _ (by decide)⟩, mem_finRange _, ?_⟩
        have hlb : slotBlock slot ⟨(3 * r + k) % 4, Nat.mod_lt _ (by decide)⟩ = 3 * r + k := by
          show slot * 4 + (3 * r + k) % 4 = 3 * r + k
          omega
        rw [hlb]
        simp [writtenCells, dataCell, hrow]
    rw [rowXor_eq, hpar, hdata 0 (by decide), hdata 1 (by decide), hdata 2 (by decide)]
    simp [restXor]
  · intro hno
    apply rowXor_congr
    intro d
    rw [happly (d, r + 4096), if_neg]
    rintro ⟨i, -, hmem⟩
    apply hno
    refine ⟨i, ?_⟩
    simp only [writtenCells, dataCell, mem_cons, not_mem_nil, or_false,
      Prod.mk.injEq] at hmem
    omega

/-- Freeing a slot whose recorded mode is still RAID 0 clears one whole block row. -/
theorem rowXor_freed_raid0 (disks : Disks) (slot block : Nat)
    (h : rowXor disks block = zeroBlock) :
    rowXor (freedDisks .raid0 slot (List.finRange blocksPerPage) disks) block = zeroBlock := by
  have happly := freedDisks_apply .raid0 slot
  by_cases hb : block = slot
  · have hzero : ∀ d < 4, freedDisks .raid0 slot (List.finRange blocksPerPage) disks d block
        = zeroBlock := by
      intro d hd
      rw [happly (d, block), if_pos]
      refine ⟨⟨d, hd⟩, mem_finRange _, ?_⟩
      show (d, block) ∈ [((slot * 4 + d) % 4, (slot * 4 + d) / 4)]
      simp only [mem_singleton, Prod.mk.injEq]
      omega
    simp [rowXor, hzero]
  · rw [rowXor_congr]
    · exact h
    · intro d
      rw [happly (d, block), if_neg]
      rintro ⟨i, -, hmem⟩
      have hi : i.val < 4 := i.isLt
      have hcell : (d, block) ∈ [((slot * 4 + i.val) % 4, (slot * 4 + i.val) / 4)] := hmem
      simp only [mem_singleton, Prod.mk.injEq] at hcell
      omega

/-! ## Runs under RAID 5 -/

/-- The operations of a run with `raid_mode` kept at `RAID_5`. -/
inductive ParityOp where
  | swapOut (me : Caller) (page : Page) (slot : Nat)
  | free (slot : Nat)

/-- One operation on a slot whose rows lie inside the disks. -/
def parityStep (d : State) : ParityOp → State → Prop
  | .swapOut me page slot, d' => SlotFits .raid5 slot ∧ slot < maxSwap ∧
      swapOutPage me page slot d = .ok ((), d')
  | .free slot, d' => SlotFits .raid5 slot ∧ slot < maxSwap ∧ d' = swapDiskFreeSlot slot d

/-- In each row of a slot that is freed, the blocks of the neighbouring slots cancel out. -/
def FreeSafe (d : State) : ParityOp → Prop
  | .swapOut _ _ _ => True
  | .free slot => d.slotMode slot = .raid5 →
      ∀ i, restXor d.disks slot (raid5Row (slotBlock slot i)) = zeroBlock

def raid5Init : State := { swapDiskInit with raidMode := .raid5 }

/-- What a run under RAID 5 keeps. -/
structure Raid5Inv (d : State) : Prop where
  idle : d.queue.Idle
  mode : d.raidMode = .raid5
  slotMode : ∀ slot, d.slotMode slot ≠ .raid1
  rows : ∀ block, 4096 ≤ block → rowXor d.disks block = zeroBlock

/-- **Freeing keeps the parity exactly when it is safe.** -/
theorem rows_free_iff {d : State} (h : Raid5Inv d) {slot : Nat} (hslot : slot < maxSwap) :
    (∀ block, 4096 ≤ block → rowXor (swapDiskFreeSlot slot d).disks block = zeroBlock) ↔
      FreeSafe d (.free slot) := by
  rw [swapDiskFreeSlot_eq hslot]
  dsimp only [FreeSafe]
  cases hm : d.slotMode slot with
  | raid0 =>
    simp only [reduceCtorEq, false_implies, iff_true]
    intro block hb
    exact rowXor_freed_raid0 _ _ _ (h.rows block hb)
  | raid1 => exact absurd hm (h.slotMode slot)
  | raid5 =>
    simp only [forall_const]
    constructor
    · intro hrows i
      rw [← (rowXor_freed d.disks slot _).1 ⟨i, rfl⟩]
      exact hrows _ (Nat.le_add_left _ _)
    · intro hsafe block hb
      obtain ⟨r, rfl⟩ : ∃ r, block = r + 4096 := ⟨block - 4096, by omega⟩
      by_cases ht : TouchesRow slot r
      · rw [(rowXor_freed d.disks slot r).1 ht]
        obtain ⟨i, rfl⟩ := ht
        exact hsafe i
      · rw [(rowXor_freed d.disks slot r).2 ht]
        exact h.rows _ hb

/-- Every safe step keeps the parity. -/
theorem Raid5Inv.step {d d' : State} {op : ParityOp} (h : Raid5Inv d) (hsafe : FreeSafe d op)
    (hs : parityStep d op d') : Raid5Inv d' := by
  cases op with
  | swapOut me page slot =>
    obtain ⟨hfit, hslot, hrun⟩ := hs
    rw [← h.mode] at hfit
    obtain ⟨q, st, hq, hrun'⟩ := swapOutPage_run h.idle me page hslot hfit
    rw [hrun'] at hrun
    cases hrun
    refine ⟨hq, h.mode, ?_, ?_⟩
    · intro s
      by_cases hs : s = slot
      · simp [hs, h.mode]
      · simpa [hs] using h.slotMode s
    · dsimp only
      rw [h.mode]
      exact rowXor_storeChunks slot page _ _ h.rows
  | free slot =>
    obtain ⟨-, hslot, rfl⟩ := hs
    have hrows := (rows_free_iff h hslot).mpr hsafe
    rw [swapDiskFreeSlot_eq hslot] at hrows ⊢
    refine ⟨h.idle, h.mode, ?_, hrows⟩
    intro s
    by_cases hs : s = slot
    · simp [hs]
    · simpa [hs] using h.slotMode s

theorem raid5Inv_init : Raid5Inv raid5Init := by
  refine ⟨fun _ => rfl, rfl, fun _ => by simp [raid5Init, swapDiskInit], ?_⟩
  intro block _
  simp [raid5Init, swapDiskInit, rowXor]

/-- **Parity is maintained in every run whose frees are safe**: in each row the parity block is the
XOR of the other three, and every block of the row can be rebuilt. -/
theorem parityOk_of_freeSafe {ops : List ParityOp} {d : State}
    (h : Run (Guarded parityStep FreeSafe) raid5Init ops d) (r : Nat) :
    ParityOk d.disks r ∧ Rebuildable d.disks r := by
  have hinv : Raid5Inv d :=
    h.invariant raid5Inv_init (fun _ _ _ hi hs => hi.step hs.1 hs.2)
  have hrow := hinv.rows (r + 4096) (Nat.le_add_left _ _)
  exact ⟨(parityOk_iff d.disks r).mpr hrow, rebuildable_of_rowXor hrow⟩

/-- Slot 0 written and freed again, with no neighbour in its rows. -/
theorem parityOk_of_freeSafe_alone :
    ∃ d, Run (Guarded parityStep FreeSafe) raid5Init
        [.swapOut callerZero (fillPage 7) 0, .free 0] d ∧
      ∀ r, ParityOk d.disks r ∧ Rebuildable d.disks r := by
  have hfit : SlotFits .raid5 0 := by decide
  obtain ⟨d, hout, hdisks⟩ : ∃ d, swapOutPage callerZero (fillPage 7) 0 raid5Init = .ok ((), d) ∧
      d.disks = storePage .raid5 0 (fillPage 7) raid5Init.disks := by
    obtain ⟨q, st, -, hout⟩ := swapOutPage_run (d := raid5Init) (fun _ => rfl) callerZero
      (fillPage 7) (by decide : 0 < maxSwap) hfit
    exact ⟨_, hout, rfl⟩
  have hsafe : FreeSafe d (.free 0) := by
    -- row 0 is all slot 0; the other two blocks of row 1 were never written
    intro _ i
    have hzero : ∀ k, k = 1 ∨ k = 2 → rowData d.disks 1 k = zeroBlock := by
      intro k hk
      unfold rowData
      rw [hdisks]
      apply storeChunks_of_notMem (c := (raid5Disk (3 * 1 + k), 1 + 4096))
      rcases hk with rfl | rfl <;> decide
    have hrows : raid5Row (slotBlock 0 i) = 0 ∨ raid5Row (slotBlock 0 i) = 1 := by
      have hi : i.val < 4 := i.isLt
      show (0 * 4 + i.val) / 3 = 0 ∨ (0 * 4 + i.val) / 3 = 1
      omega
    rcases hrows with h0 | h1
    · rw [h0]
      simp [restXor, blocksPerPage, pgsize, bsize]
    · rw [h1]
      simp [restXor, blocksPerPage, pgsize, bsize, hzero]
  have hrun : Run (Guarded parityStep FreeSafe) raid5Init
      [.swapOut callerZero (fillPage 7) 0, .free 0] (swapDiskFreeSlot 0 d) :=
    .snoc (.snoc .nil ⟨trivial, hfit, by decide, hout⟩) ⟨hsafe, hfit, by decide, rfl⟩
  exact ⟨_, hrun, fun r => parityOk_of_freeSafe hrun r⟩

/-- A page whose first byte is 1 and all others 0. -/
def onePage : Page := fun o => if o.val = 0 then 1 else 0

/-- **Freeing a neighbour breaks a row.** Slots 0 and 1 share row 1. After both are written and slot
0 is freed, the parity block of row 1 is zero while slot 1 still has a 1 in the row. -/
theorem not_parityOk_after_free :
    ∃ ops d, Run parityStep raid5Init ops d ∧ ¬ ParityOk d.disks 1 := by
  have hfit : ∀ s < 2, SlotFits .raid5 s := by
    intro s hs
    exact (slotFits_iff (show s < 16384 by omega)).mpr (show s < 9216 by omega)
  obtain ⟨q₁, st₁, hq₁, hout₁⟩ := swapOutPage_run (d := raid5Init) (fun _ => rfl) callerZero
    (fillPage 0) (by decide : 0 < maxSwap) (hfit 0 (by decide))
  obtain ⟨q₂, st₂, hq₂, hout₂⟩ := swapOutPage_run (d := { raid5Init with
      queue := q₁, stats := st₁
      slotMode := update raid5Init.slotMode 0 .raid5
      disks := storePage .raid5 0 (fillPage 0) raid5Init.disks }) hq₁ callerZero
    onePage (by decide : 1 < maxSwap) (hfit 1 (by decide))
  have hrun : Run parityStep raid5Init
      [.swapOut callerZero (fillPage 0) 0, .swapOut callerZero onePage 1, .free 0] _ :=
    .snoc (.snoc (.snoc .nil ⟨hfit 0 (by decide), by decide, hout₁⟩)
      ⟨hfit 1 (by decide), by decide, hout₂⟩) ⟨hfit 0 (by decide), by decide, rfl⟩
  refine ⟨_, _, hrun, ?_⟩
  rw [parityOk_iff, swapDiskFreeSlot_eq (by decide : 0 < maxSwap)]
  dsimp only
  have hmode : update (update raid5Init.slotMode 0 .raid5) 1
      raid5Init.raidMode 0 = .raid5 := rfl
  rw [hmode, (rowXor_freed _ 0 1).1 ⟨⟨3, by decide⟩, rfl⟩]
  -- what is left of row 1 are the first two blocks of slot 1
  intro h
  have hbyte := congrFun h ⟨0, by decide⟩
  revert hbyte
  decide

end Xv6.SwapDisk
