import Mathlib.Data.List.FinRange
import Mathlib.Data.Fintype.Basic
import Xv6.SwapDisk.Layout

/-!
# Pages on the disks

The page-level counterpart of `Layout.lean`. A slot is four logical blocks; it *fits* a mode when all
of its blocks lie on the disks (`SlotFits`, in closed form `slotFits_iff`). On an idle queue
`swap_out_page` is the pure `storePage`, `swap_in_page` is the pure `loadPage`, and both panic exactly
on a slot that does not fit.
-/

namespace Xv6.SwapDisk

open Function List

/-- The logical block of the `i`-th kilobyte of a slot. -/
abbrev slotBlock (slot : Nat) (i : Fin blocksPerPage) : Nat := slot * blocksPerPage + i

/-- Every block of the slot lies on the disks. -/
def SlotFits (mode : RaidMode) (slot : Nat) : Prop := ∀ i, BlockFits mode (slotBlock slot i)

/-- Which slots fit: all under RAID 0; under RAID 1 those whose place in their mirrored pair is below
the last 512; under RAID 5 the first 9216. -/
theorem slotFits_iff {mode : RaidMode} {slot : Nat} (h : slot < maxSwap) :
    SlotFits mode slot ↔
      match mode with
      | .raid0 => True
      | .raid1 => slot % 4096 < 3584
      | .raid5 => slot < 9216 := by
  have hslot : slot < 16384 := h
  have hblock : ∀ i : Fin blocksPerPage, slotBlock slot i = slot * 4 + i := fun _ => rfl
  have hlt : ∀ i : Fin blocksPerPage, i.val < 4 := fun i => i.isLt
  cases mode with
  | raid0 =>
    simp only [iff_true]
    intro i
    have := hlt i
    show slotBlock slot i / 4 < 16384
    rw [hblock]
    omega
  | raid1 =>
    constructor
    · intro hf
      have h0 : (slot * 4 + 0) % 16384 + 2048 < 16384 := hf ⟨0, by decide⟩
      omega
    · intro hs i
      have := hlt i
      show slotBlock slot i % 16384 + 2048 < 16384
      rw [hblock]
      omega
  | raid5 =>
    constructor
    · intro hf
      have h0 : (slot * 4 + 0) / 3 + 4096 < 16384 := hf ⟨0, by decide⟩
      omega
    · intro hs i
      have := hlt i
      show slotBlock slot i / 3 + 4096 < 16384
      rw [hblock]
      omega

instance (mode : RaidMode) (slot : Nat) : Decidable (SlotFits mode slot) :=
  inferInstanceAs (Decidable (∀ i, (dataCell mode (slotBlock slot i)).2 < diskBlocksPerDisk))

/-! ## No slot overwrites itself -/

/-- Writing one block of a slot leaves the data of its other blocks alone. -/
theorem dataCell_notMem_of_ne (mode : RaidMode) (slot : Nat) {i j : Fin blocksPerPage}
    (hij : i ≠ j) : dataCell mode (slotBlock slot j) ∉ writtenCells mode (slotBlock slot i) := by
  have hi : i.val < 4 := i.isLt
  have hj : j.val < 4 := j.isLt
  have hne : i.val ≠ j.val := fun h => hij (Fin.ext h)
  have hbi : slotBlock slot i = slot * 4 + i := rfl
  have hbj : slotBlock slot j = slot * 4 + j := rfl
  cases mode with
  | raid0 =>
    simp only [writtenCells, dataCell, mem_singleton, Prod.mk.injEq, ndisks]
    omega
  | raid1 =>
    simp only [writtenCells, dataCell, mem_cons, not_mem_nil, or_false, Prod.mk.injEq,
      raid1Pair, diskBlocksPerDisk]
    omega
  | raid5 =>
    simp only [writtenCells, dataCell, mem_cons, not_mem_nil, or_false, Prod.mk.injEq]
    rintro (⟨hd, hr⟩ | ⟨hd, hr⟩)
    · have := raid5_injective hd (by omega)
      omega
    · have hrow : raid5Row (slotBlock slot j) = raid5Row (slotBlock slot i) := by omega
      rw [← hrow] at hd
      exact raid5Disk_ne_parityDisk _ hd

/-! ## Writing and reading a page -/

/-- The effect of `swap_out_page` on the disks, for the blocks `is` of the slot. -/
def storeChunks (mode : RaidMode) (slot : Nat) (page : Page) (is : List (Fin blocksPerPage))
    (disks : Disks) : Disks :=
  is.foldl (fun disks i => storeBlock mode (slotBlock slot i) (chunk page i) disks) disks

abbrev storePage (mode : RaidMode) (slot : Nat) (page : Page) (disks : Disks) : Disks :=
  storeChunks mode slot page (List.finRange blocksPerPage) disks

/-- The page `swap_in_page` assembles from the data cells of a slot. -/
def loadPage (mode : RaidMode) (slot : Nat) (disks : Disks) : Page := fun o =>
  let c := dataCell mode (slot * blocksPerPage + o.val / bsize)
  disks c.1 c.2 ⟨o.val % bsize, chunkOffset_lt o⟩

theorem storeChunks_of_notMem {mode : RaidMode} {slot : Nat} {c : Cell} (page : Page)
    (is : List (Fin blocksPerPage)) (hc : ∀ i ∈ is, c ∉ writtenCells mode (slotBlock slot i)) :
    ∀ disks, storeChunks mode slot page is disks c.1 c.2 = disks c.1 c.2 := by
  induction is with
  | nil => exact fun _ => rfl
  | cons i is ih =>
    intro disks
    have hrest := ih (fun j hj => hc j (mem_cons_of_mem _ hj))
      (storeBlock mode (slotBlock slot i) (chunk page i) disks)
    exact hrest.trans (storeBlock_of_notMem _ _ (hc i mem_cons_self))

/-- After the loop every data cell of the slot holds its part of the page: the block written last to
it is its own, by `dataCell_notMem_of_ne`. -/
theorem storeChunks_data (mode : RaidMode) (slot : Nat) (page : Page) {i : Fin blocksPerPage}
    (is : List (Fin blocksPerPage)) (hi : i ∈ is) (hnd : is.Nodup) :
    ∀ disks, storeChunks mode slot page is disks (dataCell mode (slotBlock slot i)).1
      (dataCell mode (slotBlock slot i)).2 = chunk page i := by
  induction is with
  | nil => cases hi
  | cons j js ih =>
    intro disks
    rw [nodup_cons] at hnd
    rcases mem_cons.mp hi with rfl | hi'
    · have hsep : ∀ k ∈ js, dataCell mode (slotBlock slot i) ∉ writtenCells mode
          (slotBlock slot k) := by
        intro k hk
        exact dataCell_notMem_of_ne mode slot (by rintro rfl; exact hnd.1 hk)
      have hrest := storeChunks_of_notMem page js hsep
        (storeBlock mode (slotBlock slot i) (chunk page i) disks)
      exact hrest.trans (storeBlock_data _ _ _ _)
    · exact ih hi' hnd.2 _

/-- **A page written is the page read.** -/
theorem loadPage_storePage (mode : RaidMode) (slot : Nat) (page : Page) (disks : Disks) :
    loadPage mode slot (storePage mode slot page disks) = page := by
  funext o
  have ho : o.val < 4096 := o.isLt
  have hdiv : o.val / bsize < blocksPerPage := by
    show o.val / 1024 < 4
    omega
  have hcell := storeChunks_data mode slot page (i := ⟨o.val / bsize, hdiv⟩)
    (List.finRange blocksPerPage) (mem_finRange _) (nodup_finRange _) disks
  refine (congrFun hcell _).trans ?_
  show page _ = page o
  congr 1
  apply Fin.ext
  show o.val / 1024 * 1024 + o.val % 1024 = o.val
  omega

/-- Disks that agree on the data cells of a slot hold the same page there. -/
theorem loadPage_congr {mode : RaidMode} {slot : Nat} {disks disks' : Disks}
    (h : ∀ i : Fin blocksPerPage, disks' (dataCell mode (slotBlock slot i)).1
      (dataCell mode (slotBlock slot i)).2 = disks (dataCell mode (slotBlock slot i)).1
      (dataCell mode (slotBlock slot i)).2) :
    loadPage mode slot disks' = loadPage mode slot disks := by
  funext o
  have ho : o.val < 4096 := o.isLt
  have hdiv : o.val / bsize < blocksPerPage := by
    show o.val / 1024 < 4
    omega
  exact congrFun (h ⟨o.val / bsize, hdiv⟩) _

/-! ## `swap_out_page` and `swap_in_page` as pure effects -/

/-- A page is written block by block where its slot fits. -/
theorem writeChunks_run (me : Caller) {slot : Nat} (page : Page) {mode : RaidMode}
    (is : List (Fin blocksPerPage)) (hfit : SlotFits mode slot) :
    ∀ d : State, d.queue.Idle → ∃ q st, q.Idle ∧
      writeChunks me (slot * blocksPerPage) page mode is d = .ok ((),
        { d with queue := q, stats := st, disks := storeChunks mode slot page is d.disks }) := by
  induction is with
  | nil => exact fun d hq => ⟨d.queue, d.stats, hq, rfl⟩
  | cons i is ih =>
    intro d hq
    obtain ⟨q₁, st₁, hq₁, hw⟩ := raidWrite_run hq me (chunk page i) (hfit i)
    obtain ⟨q₂, st₂, hq₂, hrest⟩ := ih { d with
      queue := q₁, stats := st₁,
      disks := storeBlock mode (slotBlock slot i) (chunk page i) d.disks } hq₁
    exact ⟨q₂, st₂, hq₂, (PanicM.bind_of_ok hw).trans hrest⟩

/-- The loop of `swap_out_page` panics as soon as it meets a block that does not fit. -/
theorem writeChunks_panic (me : Caller) {slot : Nat} (page : Page) {mode : RaidMode}
    (is : List (Fin blocksPerPage)) (hbad : ∃ i ∈ is, ¬ BlockFits mode (slotBlock slot i)) :
    ∀ d : State, d.queue.Idle →
      writeChunks me (slot * blocksPerPage) page mode is d = .error .physWrite := by
  induction is with
  | nil =>
    obtain ⟨i, hi, -⟩ := hbad
    cases hi
  | cons i is ih =>
    intro d hq
    by_cases hi : BlockFits mode (slotBlock slot i)
    · obtain ⟨q₁, st₁, hq₁, hw⟩ := raidWrite_run hq me (chunk page i) hi
      obtain ⟨j, hj, hjf⟩ := hbad
      rcases mem_cons.mp hj with rfl | hj
      · exact absurd hi hjf
      · exact (PanicM.bind_of_ok hw).trans (ih ⟨j, hj, hjf⟩ _ hq₁)
    · exact PanicM.bind_of_error (raidWrite_panic hq me (chunk page i) hi)

/-- `swap_out_page` on a slot that fits. -/
theorem swapOutPage_run {d : State} (hq : d.queue.Idle) (me : Caller) (page : Page) {slot : Nat}
    (hslot : slot < maxSwap) (hfit : SlotFits d.raidMode slot) :
    ∃ q st, q.Idle ∧ swapOutPage me page slot d = .ok ((),
      { d with
        queue := q, stats := st
        slotMode := update d.slotMode slot d.raidMode
        disks := storePage d.raidMode slot page d.disks }) := by
  obtain ⟨q, st, hidle, hw⟩ := writeChunks_run me page (List.finRange blocksPerPage) hfit
    { d with slotMode := update d.slotMode slot d.raidMode } hq
  refine ⟨q, st, hidle, ?_⟩
  unfold swapOutPage
  rw [if_neg (Nat.not_le.mpr hslot)]
  exact hw

/-- `swap_out_page` on a slot that does not fit. -/
theorem swapOutPage_panic {d : State} (hq : d.queue.Idle) (me : Caller) (page : Page) {slot : Nat}
    (hslot : slot < maxSwap) (hfit : ¬ SlotFits d.raidMode slot) :
    swapOutPage me page slot d = .error .physWrite := by
  unfold SlotFits at hfit
  push Not at hfit
  obtain ⟨i, hi⟩ := hfit
  unfold swapOutPage
  rw [if_neg (Nat.not_le.mpr hslot)]
  exact writeChunks_panic me page _ ⟨i, mem_finRange i, hi⟩
    { d with slotMode := update d.slotMode slot d.raidMode } hq

/-- What the loop of `swap_in_page` leaves in its buffer. -/
def fillChunks (mode : RaidMode) (slot : Nat) (disks : Disks) (buf : Page)
    (is : List (Fin blocksPerPage)) : Page :=
  is.foldl (fun buf i => setChunk buf i
    (disks (dataCell mode (slotBlock slot i)).1 (dataCell mode (slotBlock slot i)).2)) buf

/-- Once block `o / BSIZE` has been read, byte `o` of the buffer is final. -/
theorem fillChunks_apply (mode : RaidMode) (slot : Nat) (disks : Disks) (o : Fin pgsize)
    (is : List (Fin blocksPerPage)) : ∀ buf : Page,
    ((∃ i ∈ is, o.val / bsize = i.val) ∨ buf o = loadPage mode slot disks o) →
      fillChunks mode slot disks buf is o = loadPage mode slot disks o := by
  induction is with
  | nil =>
    rintro buf (⟨i, hi, -⟩ | h)
    · cases hi
    · exact h
  | cons i is ih =>
    intro buf h
    apply ih
    by_cases hi : o.val / bsize = i.val
    · right
      simp only [setChunk, loadPage, hi, if_true]
    · rcases h with ⟨j, hj, hjo⟩ | h
      · rcases mem_cons.mp hj with rfl | hj
        · exact absurd hjo hi
        · exact Or.inl ⟨j, hj, hjo⟩
      · right
        simp only [setChunk, if_neg hi]
        exact h

theorem fillChunks_all (mode : RaidMode) (slot : Nat) (disks : Disks) (buf : Page) :
    fillChunks mode slot disks buf (List.finRange blocksPerPage) = loadPage mode slot disks := by
  funext o
  have ho : o.val < 4096 := o.isLt
  have hdiv : o.val / bsize < blocksPerPage := by
    show o.val / 1024 < 4
    omega
  exact fillChunks_apply mode slot disks o _ buf
    (Or.inl ⟨⟨o.val / bsize, hdiv⟩, mem_finRange _, rfl⟩)

/-- A page is read block by block where its slot fits. -/
theorem readChunks_run (me : Caller) {slot : Nat} {mode : RaidMode} (is : List (Fin blocksPerPage))
    (hfit : SlotFits mode slot) : ∀ (buf : Page) (d : State), d.queue.Idle → ∃ q st, q.Idle ∧
      readChunks me (slot * blocksPerPage) mode buf is d
        = .ok (fillChunks mode slot d.disks buf is, { d with queue := q, stats := st }) := by
  induction is with
  | nil => exact fun _ d hq => ⟨d.queue, d.stats, hq, rfl⟩
  | cons i is ih =>
    intro buf d hq
    obtain ⟨q₁, st₁, hq₁, hr⟩ := raidRead_run hq me (hfit i)
    obtain ⟨q₂, st₂, hq₂, hrest⟩ := ih (setChunk buf i
      (d.disks (dataCell mode (slotBlock slot i)).1 (dataCell mode (slotBlock slot i)).2))
      { d with queue := q₁, stats := st₁ } hq₁
    exact ⟨q₂, st₂, hq₂, (PanicM.bind_of_ok hr).trans hrest⟩

/-- `swap_in_page` on a slot that fits the mode it was written in. -/
theorem swapInPage_run {d : State} (hq : d.queue.Idle) (me : Caller) (buf : Page) {slot : Nat}
    (hslot : slot < maxSwap) (hfit : SlotFits (d.slotMode slot) slot) :
    ∃ q st, q.Idle ∧ swapInPage me buf slot d
      = .ok (loadPage (d.slotMode slot) slot d.disks, { d with queue := q, stats := st }) := by
  obtain ⟨q, st, hidle, hr⟩ := readChunks_run me (List.finRange blocksPerPage) hfit buf d hq
  refine ⟨q, st, hidle, ?_⟩
  rw [fillChunks_all] at hr
  unfold swapInPage
  rw [if_neg (Nat.not_le.mpr hslot)]
  exact hr

/-- A block beyond the end of the disk is a panic. -/
theorem readChunks_panic (me : Caller) {slot : Nat} {mode : RaidMode}
    (is : List (Fin blocksPerPage)) (hbad : ∃ i ∈ is, ¬ BlockFits mode (slotBlock slot i)) :
    ∀ (buf : Page) (d : State), d.queue.Idle →
      readChunks me (slot * blocksPerPage) mode buf is d = .error .physRead := by
  induction is with
  | nil =>
    obtain ⟨i, hi, -⟩ := hbad
    cases hi
  | cons i is ih =>
    intro buf d hq
    by_cases hi : BlockFits mode (slotBlock slot i)
    · obtain ⟨q₁, st₁, hq₁, hr⟩ := raidRead_run hq me hi
      obtain ⟨j, hj, hjf⟩ := hbad
      rcases mem_cons.mp hj with rfl | hj
      · exact absurd hi hjf
      · exact (PanicM.bind_of_ok hr).trans (ih ⟨j, hj, hjf⟩ _ _ hq₁)
    · exact PanicM.bind_of_error (raidRead_panic hq me hi)

/-- `swap_in_page` on a slot that does not fit its recorded mode. -/
theorem swapInPage_panic {d : State} (hq : d.queue.Idle) (me : Caller) (buf : Page) {slot : Nat}
    (hslot : slot < maxSwap) (hfit : ¬ SlotFits (d.slotMode slot) slot) :
    swapInPage me buf slot d = .error .physRead := by
  unfold SlotFits at hfit
  push Not at hfit
  obtain ⟨i, hi⟩ := hfit
  unfold swapInPage
  rw [if_neg (Nat.not_le.mpr hslot)]
  exact readChunks_panic me _ ⟨i, mem_finRange i, hi⟩ buf d hq

end Xv6.SwapDisk
