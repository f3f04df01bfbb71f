import Xv6.SwapDisk.Pages
import Xv6.SwapDisk.Policy

/-!
# The requests of a page

`swap_out_page` and `swap_in_page` hand one request per block of the page to
`disk_submit_and_dispatch` and nothing else touches the request queue or the disk counters: on these two
parts of the state they are the sequence of calls `slotCalls`.
-/

namespace Xv6.SwapDisk

open List

/-- The block number `raid_write` and `raid_read` give to `disk_submit_and_dispatch`. -/
def accountedBlock (lb : Nat) : RaidMode → Nat
  | .raid0 => lb / ndisks
  | .raid1 => lb % diskBlocksPerDisk
  | .raid5 => raid5Row lb

/-- The calls of `disk_submit_and_dispatch` for the blocks `is` from the logical block `lb` on. -/
def chunkCalls (me : Caller) (lb : Nat) (mode : RaidMode) (write : Bool)
    (is : List (Fin blocksPerPage)) : List Op :=
  is.map fun i : Fin blocksPerPage => .call me (Int32.ofNat (accountedBlock (lb + i) mode)) write

/-- The calls of `disk_submit_and_dispatch` for a slot. -/
def slotCalls (me : Caller) (mode : RaidMode) (write : Bool) (slot : Nat) : List Op :=
  chunkCalls me (slot * blocksPerPage) mode write (List.finRange blocksPerPage)

variable {d d' : State}

/-! ## One block -/

theorem physWrite_calls {disk block : Nat} {data : Block} {mode : RaidMode}
    (h : physWrite disk block data mode d = .ok ((), d')) : d'.queue = d.queue ∧ d'.stats = d.stats := by
  unfold physWrite at h
  split at h
  · cases h
  · cases h
    exact ⟨rfl, rfl⟩

theorem physRead_calls {disk block : Nat} {data : Block} {mode : RaidMode}
    (h : physRead disk block mode d = .ok (data, d')) : d' = d := by
  unfold physRead at h
  split at h
  · cases h
  · cases h
    rfl

theorem diskSubmitAndDispatch_calls {me : Caller} {block : Nat} {write : Bool}
    (h : diskSubmitAndDispatch me block write d = .ok ((), d')) :
    dispatchOne me (Int32.ofNat block) write d.queue d.stats = .ok (d'.queue, d'.stats) := by
  unfold diskSubmitAndDispatch at h
  split at h
  · cases h
  · next q st hrun =>
      cases h
      exact hrun

/-- A block that is written is one request. -/
theorem raidWrite_calls {me : Caller} {lb : Nat} {data : Block} {mode : RaidMode}
    (h : raidWrite me lb data mode d = .ok ((), d')) :
    dispatchOne me (Int32.ofNat (accountedBlock lb mode)) true d.queue d.stats =
      .ok (d'.queue, d'.stats) := by
  cases mode with
  | raid0 =>
    obtain ⟨_, d₁, hsub, hw⟩ := PanicM.bind_ok.mp h
    obtain ⟨hq, hst⟩ := physWrite_calls hw
    rw [hq, hst]
    exact diskSubmitAndDispatch_calls hsub
  | raid1 =>
    obtain ⟨_, d₁, hsub, hrest⟩ := PanicM.bind_ok.mp h
    obtain ⟨_, d₂, hw, hw'⟩ := PanicM.bind_ok.mp hrest
    obtain ⟨hq, hst⟩ := physWrite_calls hw
    obtain ⟨hq', hst'⟩ := physWrite_calls hw'
    rw [hq', hst', hq, hst]
    exact diskSubmitAndDispatch_calls hsub
  | raid5 =>
    obtain ⟨_, d₁, hsub, hrest⟩ := PanicM.bind_ok.mp h
    obtain ⟨_, d₂, hw, hrest'⟩ := PanicM.bind_ok.mp hrest
    obtain ⟨hq, hst⟩ := physWrite_calls hw
    obtain ⟨hq', hst'⟩ := physWrite_calls (d := d₂) hrest'
    rw [hq', hst', hq, hst]
    exact diskSubmitAndDispatch_calls hsub

/-- A block that is read is one request. -/
theorem raidRead_calls {me : Caller} {lb : Nat} {data : Block} {mode : RaidMode}
    (h : raidRead me lb mode d = .ok (data, d')) :
    dispatchOne me (Int32.ofNat (accountedBlock lb mode)) false d.queue d.stats =
      .ok (d'.queue, d'.stats) := by
  cases mode with
  | raid0 =>
    obtain ⟨_, d₁, hsub, hr⟩ := PanicM.bind_ok.mp h
    rw [physRead_calls hr]
    exact diskSubmitAndDispatch_calls hsub
  | raid1 =>
    obtain ⟨_, d₁, hsub, hr⟩ := PanicM.bind_ok.mp h
    rw [physRead_calls hr]
    exact diskSubmitAndDispatch_calls hsub
  | raid5 =>
    obtain ⟨_, d₁, hsub, hr⟩ := PanicM.bind_ok.mp h
    rw [physRead_calls hr]
    exact diskSubmitAndDispatch_calls hsub

/-! ## A page -/

/-- A page that is written is one request for each block. -/
theorem writeChunks_calls {me : Caller} {lb : Nat} {page : Page} {mode : RaidMode}
    (is : List (Fin blocksPerPage)) : ∀ {d d' : State},
    writeChunks me lb page mode is d = .ok ((), d') →
      execOps (chunkCalls me lb mode true is) (d.queue, d.stats) = .ok (d'.queue, d'.stats) := by
  induction is with
  | nil =>
    intro d d' h
    cases h
    rfl
  | cons i is ih =>
    intro d d' h
    obtain ⟨_, d₁, hw, hrest⟩ := PanicM.bind_ok.mp h
    rw [chunkCalls, map_cons, execOps, foldlM_cons]
    show (dispatchOne me _ true d.queue d.stats >>= _) = _
    rw [raidWrite_calls hw]
    exact ih hrest

/-- A page that is read is one request for each block. -/
theorem readChunks_calls {me : Caller} {lb : Nat} {mode : RaidMode} (is : List (Fin blocksPerPage)) :
    ∀ {d d' : State} {buf page : Page}, readChunks me lb mode buf is d = .ok (page, d') →
      execOps (chunkCalls me lb mode false is) (d.queue, d.stats) = .ok (d'.queue, d'.stats) := by
  induction is with
  | nil =>
    intro d d' buf page h
    cases h
    rfl
  | cons i is ih =>
    intro d d' buf page h
    obtain ⟨_, d₁, hr, hrest⟩ := PanicM.bind_ok.mp h
    rw [chunkCalls, map_cons, execOps, foldlM_cons]
    show (dispatchOne me _ false d.queue d.stats >>= _) = _
    rw [raidRead_calls hr]
    exact ih hrest

/-- **A page written** makes the calls of its slot, in the current mode. -/
theorem swapOutPage_calls {me : Caller} {page : Page} {slot : Nat}
    (h : swapOutPage me page slot d = .ok ((), d')) :
    execOps (slotCalls me d.raidMode true slot) (d.queue, d.stats) = .ok (d'.queue, d'.stats) := by
  unfold swapOutPage at h
  split at h
  · cases h
  · exact writeChunks_calls (d := { d with slotMode := Function.update d.slotMode slot d.raidMode }) _ h

/-- **A page read** makes the calls of its slot, in the mode the slot was written in. -/
theorem swapInPage_calls {me : Caller} {buf page : Page} {slot : Nat}
    (h : swapInPage me buf slot d = .ok (page, d')) :
    execOps (slotCalls me (d.slotMode slot) false slot) (d.queue, d.stats) =
      .ok (d'.queue, d'.stats) := by
  unfold swapInPage at h
  split at h
  · cases h
  · exact readChunks_calls _ h

/-! ## What the calls count -/

/-- The number of requests of `p` in a direction. -/
def requestsOf (p : ProcId) (write : Bool) (rs : List Submission) : Nat :=
  rs.countP fun r => r.proc = p && r.write == write

/-- The counter of a process in a direction. -/
def DiskStats.count (st : DiskStats) : Bool → Int32
  | true => st.diskWrites
  | false => st.diskReads

/-- **Each request counts once** for its process and direction. -/
theorem serve_foldl_count (p : ProcId) (write : Bool) (rs : List Submission) : ∀ a : Accounts,
    ((rs.foldl Accounts.serve a).stats p).count write =
      (a.stats p).count write + Int32.ofNat (requestsOf p write rs) := by
  induction rs with
  | nil =>
    intro a
    simp [requestsOf]
  | cons r rs ih =>
    intro a
    have hone : ((a.serve r).stats p).count write =
        (a.stats p).count write + Int32.ofNat (if r.proc = p ∧ r.write = write then 1 else 0) := by
      rcases eq_or_ne p r.proc with rfl | hne
      · cases write <;> cases hw : r.write <;> simp [Accounts.serve, DiskStats.count, hw]
      · have hne' : ¬ r.proc = p := fun h => hne h.symm
        simp [Accounts.serve, hne, hne']
    rw [foldl_cons, ih, hone, Int32.add_assoc, ← Int32.ofNat_add]
    congr 2
    simp only [requestsOf, countP_cons, Bool.and_eq_true, beq_iff_eq, decide_eq_true_eq]
    omega

/-- All of them are charged to the caller. -/
theorem chunkCalls_requestsOf (p : ProcId) (w : Bool) (me : Caller) (lb : Nat) (mode : RaidMode)
    (write : Bool) (is : List (Fin blocksPerPage)) :
    requestsOf p w ((chunkCalls me lb mode write is).filterMap Op.submission) =
      if me.proc = p ∧ write = w then is.length else 0 := by
  induction is with
  | nil => simp [chunkCalls, requestsOf]
  | cons i is ih =>
    unfold chunkCalls requestsOf at ih ⊢
    rw [map_cons, filterMap_cons_some (f := Op.submission) rfl, countP_cons, ih,
      length_cons]
    simp only [Bool.and_eq_true, beq_iff_eq, decide_eq_true_eq]
    split_ifs <;> rfl

end Xv6.SwapDisk
