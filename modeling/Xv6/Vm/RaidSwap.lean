import Xv6.Lib.Transition
import Xv6.SwapDisk.Calls
import Xv6.Vm.EvictEffect
import Xv6.Vm.FaultSpec

/-!
# Swapping to the RAID disks

The kernel with `kernel/swap_disk.c` as its swap device. Pages move by `swapout` and `swapin`; between
these calls slots are freed, the RAID mode and the scheduling policy are set, and the rest of the kernel
does whatever it likes to memory, page tables and processes.

Two things are shown about every run. Whether `swapout` of a mapped page succeeds is decided by the
lowest free slot: it panics exactly when that slot lies beyond the end of the disks in the current mode.
And the disk counters of a process are ahead of the requests served for it by one for each page moved,
because `swapout` and `swapin` count the page on top of its four blocks.
-/

namespace Xv6

open TraceM Function Transition SwapDisk

/-- The RAID disks as a swap device. `swapout` and `swapin` add their own `disk_writes++` and
`disk_reads++` and store the average latency once more. -/
instance : SwapStore SwapDisk.State where
  raidMode d := d.raidMode
  swapOutPage := SwapDisk.swapOutPage
  swapInPage := SwapDisk.swapInPage
  swapDiskFreeSlot := SwapDisk.swapDiskFreeSlot
  noteWrite p d :=
    { d with
      stats := update d.stats p
        { d.stats p with
          diskWrites := (d.stats p).diskWrites + 1
          avgDiskLatency := SwapDisk.diskGetAvgLatency d.queue } }
  noteRead p d :=
    { d with
      stats := update d.stats p
        { d.stats p with
          diskReads := (d.stats p).diskReads + 1
          avgDiskLatency := SwapDisk.diskGetAvgLatency d.queue } }

abbrev RaidKernel := Kernel SwapDisk.State

/-! ## Runs -/

/-- A call that was completed, with what `swapout` returned, or what the rest of the kernel does. -/
inductive SwapOp where
  | swapout (me : ProcId) (pt va : Nat) (ret : Option (Fin maxSwap))
  | swapin (me : ProcId) (pa : Nat) (idx : Int)
  | swapFree (idx : Int)
  | setraidmode (mode : Int)
  | setdisksched (policy : Int)
  | other

/-- The effect of a call. Nothing but these calls writes the swap table or the disks. -/
def SwapOp.Step (k : RaidKernel) : SwapOp → RaidKernel → Prop
  | .swapout me pt va ret, k' => ∃ es, Xv6.swapout me pt va k = .ok (ret, k', es)
  | .swapin me pa idx, k' => ∃ es, Xv6.swapin me pa idx k = .ok ((), k', es)
  | .swapFree idx, k' => ∃ es, Xv6.swapFree idx k = .ok ((), k', es)
  | .setraidmode mode, k' => k' = k.setDisk (SwapDisk.setraidmode mode k.disk).2
  | .setdisksched policy, k' => k' = k.setDisk
      { k.disk with queue := (SwapDisk.setdisksched policy k.disk.queue).2 }
  | .other, k' => k'.swaptable = k.swaptable ∧ k'.disk = k.disk

/-- What the queue and the counters of the disks go through in a call. -/
def SwapOp.calls (k : RaidKernel) : SwapOp → List SwapDisk.Op
  | .swapout me _ _ (some s) => SwapDisk.slotCalls (k.caller me) k.disk.raidMode true s
  | .swapin me _ idx => (slotOf idx).elim [] fun s =>
    SwapDisk.slotCalls (k.caller me) (k.disk.slotMode s) false s
  | .setdisksched policy => [.setdisksched policy]
  | _ => []

/-- The process whose page a call moved, and whether it was written. -/
def SwapOp.moved : SwapOp → Option (ProcId × Bool)
  | .swapout me _ _ (some _) => some (me, true)
  | .swapin me _ _ => some (me, false)
  | _ => none

variable {k k' : RaidKernel}

/-- What `swapin` does when it returns. -/
theorem swapin_result {D : Type} [SwapStore D] {k : Kernel D} (me : ProcId) (pa : Nat) (idx : Int) :
    Sat .lenient (swapin me pa idx) (fun _ k' => ∃ s page d, slotOf idx = some s ∧
      SwapStore.swapInPage (k.caller me) (k.mem pa) s k.disk = .ok (page, d) ∧
        k' = k.swappedIn me pa s page d) k := by
  cases hidx : slotOf idx with
  | none =>
    unfold swapin
    rw [hidx]
    exact Sat.panic trivial
  | some s =>
    cases hused : (k.swaptable s).used with
    | true =>
      refine (swapin_spec (fun _ => trivial) me (slotOf_eq_some.mp hidx) hused).mono ?_
      rintro _ k' ⟨page, d, hin, hk'⟩
      exact ⟨s, page, d, rfl, hin, hk'⟩
    | false =>
      unfold swapin
      rw [hidx]
      apply Sat.seq_get
      rw [if_pos hused]
      exact Sat.panic trivial

theorem swapDiskFreeSlot_queue (s : Nat) (d : SwapDisk.State) :
    (SwapDisk.swapDiskFreeSlot s d).queue = d.queue ∧ (SwapDisk.swapDiskFreeSlot s d).stats = d.stats := by
  unfold SwapDisk.swapDiskFreeSlot
  split
  · exact ⟨rfl, rfl⟩
  · exact ⟨rfl, rfl⟩

/-- **What a call does to the counters**: those of its requests, and one more for the page it moved. -/
theorem SwapOp.Step.counters {op : SwapOp} (h : op.Step k k') :
    ∃ st, SwapDisk.execOps (op.calls k) (k.disk.queue, k.disk.stats) = .ok (k'.disk.queue, st) ∧
      ∀ p w, (k'.disk.stats p).count w =
        (st p).count w + Int32.ofNat (if op.moved = some (p, w) then 1 else 0) := by
  -- a call without requests that leaves the counters alone
  have hsame : k'.disk.queue = k.disk.queue → k'.disk.stats = k.disk.stats →
      ∃ st, SwapDisk.execOps [] (k.disk.queue, k.disk.stats) = .ok (k'.disk.queue, st) ∧
        ∀ p w, (k'.disk.stats p).count w = (st p).count w + Int32.ofNat (if none = some (p, w) then 1 else 0) := by
    intro hq hst
    refine ⟨k.disk.stats, by rw [hq]; rfl, ?_⟩
    intro p w
    rw [hst]
    simp
  cases op with
  | swapout me pt va ret =>
    obtain ⟨es, hrun⟩ := h
    have hres := (swapout_result Watch.lenient_lax me pt va).holds hrun
    cases ret with
    | none =>
      obtain ⟨rfl, -⟩ := hres
      exact hsame rfl rfl
    | some s =>
      obtain ⟨e, d, -, -, -, -, hout, rfl⟩ := hres
      refine ⟨d.stats, swapOutPage_calls hout, ?_⟩
      intro p w
      show (update d.stats me _ p).count w = _
      rcases eq_or_ne p me with rfl | hne
      · cases w <;> simp [SwapOp.moved, SwapDisk.DiskStats.count]
      · simp [SwapOp.moved, hne, hne.symm]
  | swapin me pa idx =>
    obtain ⟨es, hrun⟩ := h
    obtain ⟨s, page, d, hidx, hin, rfl⟩ := (swapin_result me pa idx).holds hrun
    obtain ⟨hq, hst⟩ := swapDiskFreeSlot_queue s (SwapStore.noteRead me d)
    refine ⟨d.stats, ?_, ?_⟩
    · show SwapDisk.execOps ((slotOf idx).elim [] _) _ =
        .ok ((SwapDisk.swapDiskFreeSlot s (SwapStore.noteRead me d)).queue, _)
      rw [hidx, hq]
      exact swapInPage_calls hin
    · intro p w
      show ((SwapDisk.swapDiskFreeSlot s (SwapStore.noteRead me d)).stats p).count w = _
      rw [hst]
      show (update d.stats me _ p).count w = _
      rcases eq_or_ne p me with rfl | hne
      · cases w <;> simp [SwapOp.moved, SwapDisk.DiskStats.count]
      · simp [SwapOp.moved, hne, hne.symm]
  | swapFree idx =>
    obtain ⟨es, hrun⟩ := h
    unfold Xv6.swapFree at hrun
    cases hidx : slotOf idx with
    | none =>
      rw [hidx] at hrun
      cases hrun
      exact hsame rfl rfl
    | some s =>
      rw [hidx] at hrun
      cases hrun
      obtain ⟨hq, hst⟩ := swapDiskFreeSlot_queue s k.disk
      exact hsame hq hst
  | setraidmode mode =>
    cases h
    unfold SwapDisk.setraidmode at hsame ⊢
    cases hmode : SwapDisk.RaidMode.ofInt mode with
    | none =>
      simp only [hmode] at hsame
      exact hsame rfl rfl
    | some m =>
      simp only [hmode] at hsame
      exact hsame rfl rfl
  | setdisksched policy =>
    cases h
    exact ⟨k.disk.stats, rfl, fun p w => by simp [SwapOp.moved]; rfl⟩
  | other =>
    obtain ⟨-, hd⟩ := h
    exact hsame (by rw [hd]) (by rw [hd])

theorem SwapOp.Step.idle {op : SwapOp} (h : op.Step k k') (hq : k.disk.queue.Idle) :
    k'.disk.queue.Idle := by
  obtain ⟨st, hrun, -⟩ := h.counters
  obtain ⟨q', st', hrun', hidle, -⟩ := execOps_accounts (op.calls k) k.disk.stats hq
  rw [hrun] at hrun'
  cases hrun'
  exact hidle

/-! ## The disk counters of a process -/

/-- A page that moves is four requests of its process. -/
theorem SwapOp.calls_requestsOf (k : RaidKernel) (op : SwapOp) (h : op.Step k k') (p : ProcId) (w : Bool) :
    SwapDisk.requestsOf p w ((op.calls k).filterMap SwapDisk.Op.submission) =
      4 * if op.moved = some (p, w) then 1 else 0 := by
  have hslot : ∀ (me : ProcId) (mode : SwapDisk.RaidMode) (write : Bool) (s : Nat),
      SwapDisk.requestsOf p w ((SwapDisk.slotCalls (k.caller me) mode write s).filterMap
        SwapDisk.Op.submission) = 4 * if some (me, write) = some (p, w) then 1 else 0 := by
    intro me mode write s
    rw [SwapDisk.slotCalls, chunkCalls_requestsOf, List.length_finRange]
    show (if me = p ∧ write = w then 4 else 0) = _
    simp
  cases op with
  | swapout me pt va ret =>
    cases ret with
    | none => rfl
    | some s => exact hslot me _ true s
  | swapin me pa idx =>
    obtain ⟨es, hrun⟩ := h
    obtain ⟨s, -, -, hidx, -⟩ := (swapin_result me pa idx).holds hrun
    show SwapDisk.requestsOf p w (((slotOf idx).elim [] _).filterMap _) = _
    rw [hidx]
    exact hslot me _ false s
  | swapFree idx => rfl
  | setraidmode mode => rfl
  | setdisksched policy => rfl
  | other => rfl

/-- A step together with the requests served so far. -/
def loggedStep (s : RaidKernel × List SwapDisk.Submission) (op : SwapOp)
    (s' : RaidKernel × List SwapDisk.Submission) : Prop :=
  op.Step s.1 s'.1 ∧ s'.2 = s.2 ++ (op.calls s.1).filterMap SwapDisk.Op.submission

/-- The number of pages moved for `p` in a direction. -/
def pagesMoved (p : ProcId) (w : Bool) (ops : List SwapOp) : Nat :=
  ops.countP fun op => op.moved = some (p, w)

/-- Each page moved is four requests, and five more on the counter. -/
theorem loggedRun_counters {s₀ s : RaidKernel × List SwapDisk.Submission} {ops : List SwapOp}
    (hq : s₀.1.disk.queue.Idle) (h₀ : s₀.2 = []) (p : ProcId) (w : Bool)
    (h : Run loggedStep s₀ ops s) :
    s.1.disk.queue.Idle ∧ SwapDisk.requestsOf p w s.2 = 4 * pagesMoved p w ops ∧
      (s.1.disk.stats p).count w =
        (s₀.1.disk.stats p).count w + Int32.ofNat (5 * pagesMoved p w ops) := by
  induction h with
  | nil =>
    refine ⟨hq, ?_, ?_⟩
    · rw [h₀]
      rfl
    · simp [pagesMoved]
  | @snoc ops s s' op _ hstep ih =>
    obtain ⟨hidle, hreq, hcount⟩ := ih
    obtain ⟨hs, hlog⟩ := hstep
    have hmoved : pagesMoved p w (ops ++ [op]) =
        pagesMoved p w ops + if op.moved = some (p, w) then 1 else 0 := by
      simp [pagesMoved, List.countP_append, List.countP_singleton]
    have hone := op.calls_requestsOf s.1 hs p w
    refine ⟨hs.idle hidle, ?_, ?_⟩
    · rw [hlog, hmoved]
      simp only [SwapDisk.requestsOf, List.countP_append] at hreq hone ⊢
      rw [hreq, hone]
      omega
    · obtain ⟨st, hrun, hnote⟩ := hs.counters
      obtain ⟨q', st', hrun', -, hacc⟩ := execOps_accounts (op.calls s.1) s.1.disk.stats hidle
      rw [hrun] at hrun'
      cases hrun'
      have hst : (st p).count w = (s.1.disk.stats p).count w +
          Int32.ofNat (SwapDisk.requestsOf p w ((op.calls s.1).filterMap SwapDisk.Op.submission)) := by
        have hstats := congrArg SwapDisk.Accounts.stats hacc
        change st = _ at hstats
        rw [hstats, serve_foldl_count]
        rfl
      rw [hnote, hst, hone, hcount, hmoved, Int32.add_assoc, Int32.add_assoc, ← Int32.ofNat_add,
        ← Int32.ofNat_add]
      congr 2
      omega

/-- Five times a number is four times that number on a 32-bit counter only for zero. -/
theorem toInt_add_ofNat_sub_eq_iff (x : Int32) (n : Nat) :
    (x + Int32.ofNat (5 * n)).toInt - x.toInt = ((4 * n : Nat) : Int) ↔ n = 0 := by
  constructor
  · intro h
    have hx := x.le_toInt
    rw [Int32.toInt_add, Int32.toInt_ofNat', show Int32.size = 2 ^ 32 from rfl, Int.add_bmod_bmod] at h
    have hlt := Int.bmod_lt (x := x.toInt + ((5 * n : Nat) : Int)) (m := 2 ^ 32) (by decide)
    obtain ⟨c, hc⟩ := Int.dvd_self_sub_bmod (x := x.toInt + ((5 * n : Nat) : Int)) (m := 2 ^ 32)
    omega
  · rintro rfl
    simp

/-- **Disk I/O accounting**: in a run of swap calls by any processes in any RAID modes, the reported
`disk_writes` and `disk_reads` of `p` grow by the numbers of requests served for it exactly when no page
was moved for it. -/
theorem disk_accounting_iff {k₀ : RaidKernel} {log : List SwapDisk.Submission} {ops : List SwapOp}
    (hq : k₀.disk.queue.Idle) (p : ProcId) (h : Run loggedStep (k₀, []) ops (k, log)) :
    ((k.disk.stats p).diskWrites.toInt - (k₀.disk.stats p).diskWrites.toInt =
          SwapDisk.requestsOf p true log ∧
        (k.disk.stats p).diskReads.toInt - (k₀.disk.stats p).diskReads.toInt =
          SwapDisk.requestsOf p false log) ↔
      ∀ op ∈ ops, ∀ w, op.moved ≠ some (p, w) := by
  obtain ⟨-, hwreq, hwcount⟩ := loggedRun_counters hq rfl p true h
  obtain ⟨-, hrreq, hrcount⟩ := loggedRun_counters hq rfl p false h
  change (k.disk.stats p).diskWrites = (k₀.disk.stats p).diskWrites + _ at hwcount
  change (k.disk.stats p).diskReads = (k₀.disk.stats p).diskReads + _ at hrcount
  dsimp only at hwreq hrreq
  rw [hwcount, hrcount, hwreq, hrreq, toInt_add_ofNat_sub_eq_iff, toInt_add_ofNat_sub_eq_iff]
  simp only [pagesMoved, List.countP_eq_zero, decide_eq_true_eq]
  constructor
  · rintro ⟨hw, hr⟩ op hop w
    cases w with
    | true => exact hw op hop
    | false => exact hr op hop
  · intro hno
    exact ⟨fun op hop => hno op hop true, fun op hop => hno op hop false⟩

/-! ## Whether a page fits -/

/-- `swapout` of a mapped page into a slot that lies on the disks. -/
theorem swapout_fits (hq : k.disk.queue.Idle) (me : ProcId) {pt va : Nat} {t : PageTable} {e : Pte}
    {s : Fin maxSwap} (hva : va < maxva) (ht : k.tables pt = some t)
    (he : k.tables.entry pt (vpn va) = some e) (hV : e.getLsbD pteV = true)
    (hs : (k.swaptable s).used = false) (hlow : ∀ t < s, (k.swaptable t).used = true)
    (hfit : SwapDisk.SlotFits k.disk.raidMode s) :
    ∃ k', swapout me pt va k = .ok (some s, k', []) ∧ k'.disk.raidMode = k.disk.raidMode ∧
      k'.swaptable = update k.swaptable s ⟨true, pt, va, k.disk.raidMode⟩ ∧
      k'.disk.slotMode = update k.disk.slotMode s k.disk.raidMode ∧
      k'.disk.disks = SwapDisk.storePage k.disk.raidMode s (k.mem (pte2pa e)) k.disk.disks := by
  obtain ⟨q, st, -, hout⟩ := swapOutPage_run hq (k.caller me) (k.mem (pte2pa e)) s.isLt hfit
  have hrun : swapout me pt va k = _ := swapout_eq hva ht he hV hs hlow
  rw [show SwapStore.swapOutPage (k.caller me) (k.mem (pte2pa e)) s k.disk = _ from hout] at hrun
  exact ⟨_, hrun, rfl, rfl, rfl, rfl⟩

/-- `swapout` of a mapped page into a slot beyond the end of the disks. -/
theorem swapout_panics (hq : k.disk.queue.Idle) (me : ProcId) {pt va : Nat} {t : PageTable} {e : Pte}
    {s : Fin maxSwap} (hva : va < maxva) (ht : k.tables pt = some t)
    (he : k.tables.entry pt (vpn va) = some e) (hV : e.getLsbD pteV = true)
    (hs : (k.swaptable s).used = false) (hlow : ∀ t < s, (k.swaptable t).used = true)
    (hfit : ¬ SwapDisk.SlotFits k.disk.raidMode s) :
    swapout me pt va k = .error (.disk .physWrite) := by
  have hout := swapOutPage_panic hq (k.caller me) (k.mem (pte2pa e)) s.isLt hfit
  rw [swapout_eq hva ht he hV hs hlow,
    show SwapStore.swapOutPage (k.caller me) (k.mem (pte2pa e)) s k.disk = _ from hout]

/-- `swapout` when there is no free slot. -/
theorem swapout_full {D : Type} [SwapStore D] {k : Kernel D} (me : ProcId) {pt va : Nat} {t : PageTable}
    {e : Pte} (hva : va < maxva) (ht : k.tables pt = some t) (he : k.tables.entry pt (vpn va) = some e)
    (hV : e.getLsbD pteV = true) (hfull : ∀ s, (k.swaptable s).used = true) :
    swapout me pt va k = .ok (none, k, []) := by
  have hslot : k.takeSlot pt va = none := by
    unfold Kernel.takeSlot
    rw [firstIdx_eq_none.mpr fun s => by simp [hfull s]]
    rfl
  unfold swapout
  rw [bind_of_ok (walk_run hva ht), he]
  dsimp only [Option.map_some]
  rw [bind_of_ok (deref_run he), if_neg (by simp [hV]), get_bind_apply, hslot]
  rfl

/-- The lowest free slot, if there is one, lies on the disks in the current RAID mode. -/
def Kernel.NextSlotFits (k : RaidKernel) : Prop :=
  ∀ s : Fin maxSwap, (k.swaptable s).used = false → (∀ t < s, (k.swaptable t).used = true) →
    match k.disk.raidMode with
    | .raid0 => True
    | .raid1 => s.val % 4096 < 3584
    | .raid5 => s.val < 9216

/-- What `swapout` of a page with the content `page` is to do: return `-1` and change nothing because
all slots are in use, or store the page in a free slot, all of whose blocks lie on the disks. -/
def SwapServed (me : ProcId) (pt va : Nat) (page : Page) (k : RaidKernel) : Prop :=
  (swapout me pt va k = .ok (none, k, []) ∧ ∀ s, (k.swaptable s).used = true) ∨
    ∃ s k', swapout me pt va k = .ok (some s, k', []) ∧ (k.swaptable s).used = false ∧
      SwapDisk.loadPage (k'.disk.slotMode s) s k'.disk.disks = page ∧
      ∀ i, ∀ c ∈ SwapDisk.writtenCells (k'.disk.slotMode s) (SwapDisk.slotBlock s i), c.OnDisk

/-- Between calls the queue is idle, and every slot lies on the disks in its recorded mode. -/
structure SwapOk (k : RaidKernel) : Prop where
  idle : k.disk.queue.Idle
  fits : ∀ s : Fin maxSwap, SwapDisk.SlotFits (k.disk.slotMode s) s

theorem SwapOk.boot (image : Image) (free : List Nat) :
    SwapOk (Kernel.boot image free SwapDisk.swapDiskInit) :=
  ⟨swapDiskInit_idle, fun s => (slotFits_iff s.isLt).mpr trivial⟩

/-- Freeing a slot resets its mode to RAID 0, in which every slot fits. -/
theorem slotMode_free {d : SwapDisk.State} (h : ∀ s : Fin maxSwap, SwapDisk.SlotFits (d.slotMode s) s)
    (s t : Fin maxSwap) : SwapDisk.SlotFits ((SwapDisk.swapDiskFreeSlot s d).slotMode t) t := by
  unfold SwapDisk.swapDiskFreeSlot
  rw [if_neg (Nat.not_le.mpr s.isLt)]
  show SwapDisk.SlotFits (update d.slotMode s.val .raid0 t.val) t
  by_cases hts : t.val = s.val
  · rw [hts, update_self]
    exact (slotFits_iff s.isLt).mpr trivial
  · rw [update_of_ne hts]
    exact h t

/-- Every call leaves the queue idle and the slots on the disks. -/
theorem SwapOk.step {op : SwapOp} (h : SwapOk k) (hs : op.Step k k') : SwapOk k' := by
  refine ⟨hs.idle h.idle, ?_⟩
  cases op with
  | swapout me pt va ret =>
    obtain ⟨es, hrun⟩ := hs
    have hres := (swapout_result Watch.lenient_lax me pt va).holds hrun
    cases ret with
    | none =>
      obtain ⟨rfl, -⟩ := hres
      exact h.fits
    | some s =>
      obtain ⟨e, d, -, -, -, -, hout, rfl⟩ := hres
      change SwapDisk.swapOutPage _ _ _ _ = _ at hout
      by_cases hfit : SwapDisk.SlotFits k.disk.raidMode s
      · obtain ⟨q, st, -, hok⟩ := swapOutPage_run h.idle (k.caller me) (k.mem (pte2pa e))
          s.isLt hfit
        rw [hok] at hout
        cases hout
        intro t
        show SwapDisk.SlotFits (update k.disk.slotMode s.val k.disk.raidMode t.val) t
        by_cases hts : t.val = s.val
        · rw [hts, update_self]
          exact hfit
        · rw [update_of_ne hts]
          exact h.fits t
      · rw [swapOutPage_panic h.idle _ _ s.isLt hfit] at hout
        cases hout
  | swapin me pa idx =>
    obtain ⟨es, hrun⟩ := hs
    obtain ⟨s, page, d, -, hin, rfl⟩ := (swapin_result me pa idx).holds hrun
    change SwapDisk.swapInPage _ _ _ _ = _ at hin
    obtain ⟨q, st, -, hok⟩ := swapInPage_run h.idle (k.caller me) (k.mem pa) s.isLt (h.fits s)
    rw [hok] at hin
    cases hin
    exact slotMode_free (d := SwapStore.noteRead me { k.disk with queue := q, stats := st }) h.fits s
  | swapFree idx =>
    obtain ⟨es, hrun⟩ := hs
    unfold Xv6.swapFree at hrun
    cases hidx : slotOf idx with
    | none =>
      rw [hidx] at hrun
      cases hrun
      exact h.fits
    | some s =>
      rw [hidx] at hrun
      cases hrun
      exact slotMode_free h.fits s
  | setraidmode mode =>
    cases hs
    unfold SwapDisk.setraidmode
    cases SwapDisk.RaidMode.ofInt mode with
    | none => exact h.fits
    | some m => exact h.fits
  | setdisksched policy =>
    cases hs
    exact h.fits
  | other =>
    obtain ⟨-, hd⟩ := hs
    rw [hd]
    exact h.fits

/-- The conditions of `NextSlotFits` are the fit of the slot. -/
theorem nextSlotFits_iff : k.NextSlotFits ↔ ∀ s : Fin maxSwap, (k.swaptable s).used = false →
    (∀ t < s, (k.swaptable t).used = true) → SwapDisk.SlotFits k.disk.raidMode s := by
  unfold Kernel.NextSlotFits
  constructor
  · intro h s hs hlow
    exact (slotFits_iff s.isLt).mpr (h s hs hlow)
  · intro h s hs hlow
    exact (slotFits_iff s.isLt).mp (h s hs hlow)

/-- **Swap capacity.** In every state reached, the slots are on the disks in their recorded modes, so
reading them and zeroing them stays on the disks; and `swapout` of a mapped page is served exactly when
the lowest free slot lies on the disks in the current mode. -/
theorem swapout_served_iff {image : Image} {free : List Nat} {ops : List SwapOp}
    (h : Run (fun k op k' => SwapOp.Step k op k') (Kernel.boot image free SwapDisk.swapDiskInit)
      ops k) :
    (∀ s : Fin maxSwap, ∀ i, ∀ c ∈ SwapDisk.writtenCells (k.disk.slotMode s) (SwapDisk.slotBlock s i),
      c.OnDisk) ∧
    ∀ (me : ProcId) {pt va : Nat} {t : PageTable} {e : Pte}, va < maxva → k.tables pt = some t →
      k.tables.entry pt (vpn va) = some e → e.getLsbD pteV = true →
        (SwapServed me pt va (k.mem (pte2pa e)) k ↔ k.NextSlotFits) := by
  have hok : SwapOk k := h.invariant (I := SwapOk) (.boot image free) fun _ _ _ hI hs => hI.step hs
  refine ⟨fun s i c hc => (onDisk_of_mem_writtenCells hc).mpr (hok.fits s i), ?_⟩
  intro me pt va t e hva ht he hV
  rw [nextSlotFits_iff]
  constructor
  · rintro hserved s hs hlow
    by_contra hfit
    have hpanic := swapout_panics hok.idle me hva ht he hV hs hlow hfit
    rcases hserved with ⟨hrun, -⟩ | ⟨s', k', hrun, -⟩
    · rw [hpanic] at hrun
      cases hrun
    · rw [hpanic] at hrun
      cases hrun
  · intro hfit
    cases hfirst : firstIdx fun s => !(k.swaptable s).used with
    | none =>
      have hfull : ∀ s, (k.swaptable s).used = true := fun s => by simpa using firstIdx_eq_none.mp hfirst s
      exact Or.inl ⟨swapout_full me hva ht he hV hfull, hfull⟩
    | some s =>
      have hs : (k.swaptable s).used = false := by simpa using firstIdx_holds hfirst
      have hlow : ∀ t < s, (k.swaptable t).used = true := fun t hlt => by
        simpa using firstIdx_before hfirst hlt
      obtain ⟨k', hrun, -, -, hmode, hdisks⟩ :=
        swapout_fits hok.idle me hva ht he hV hs hlow (hfit s hs hlow)
      have hslot : k'.disk.slotMode s = k.disk.raidMode := by
        rw [hmode]
        exact update_self _ _ _
      refine Or.inr ⟨s, k', hrun, hs, ?_, ?_⟩
      · rw [hslot, hdisks]
        exact loadPage_storePage _ _ _ _
      · intro i c hc
        rw [hslot] at hc
        exact (onDisk_of_mem_writtenCells hc).mpr (hfit s hs hlow i)

/-! ## Runs with one page table -/

/-- Every page is mapped, to the frame 0. -/
def allMapped : Tables := fun _ => some ⟨fun _ => some ⟨0, fun _ => some ⟨0, fun _ => bit pteV⟩⟩⟩

/-- The kernel after boot, with no free page. -/
def raidBoot : RaidKernel :=
  Kernel.boot .small [] SwapDisk.swapDiskInit

/-- The rest of the kernel maps all pages, and one of them goes to the lowest free slot. -/
theorem swapout_allMapped (hok : SwapOk k) {s : Fin maxSwap} (hs : (k.swaptable s).used = false)
    (hlow : ∀ t < s, (k.swaptable t).used = true) (hfit : SwapDisk.SlotFits k.disk.raidMode s) :
    ∃ k', SwapOp.Step (k.setTables allMapped) (.swapout 0 0 0 (some s)) k' ∧
      k'.disk.raidMode = k.disk.raidMode ∧
      k'.swaptable = update k.swaptable s ⟨true, 0, 0, k.disk.raidMode⟩ := by
  obtain ⟨k', hrun, hmode, htable, -, -⟩ := swapout_fits (k := k.setTables allMapped) hok.idle 0
    (by decide : 0 < maxva) (rfl : (k.setTables allMapped).tables 0 = some _) rfl (by decide) hs hlow hfit
  exact ⟨k', ⟨[], hrun⟩, hmode, htable⟩

/-- The lowest `n` slots are in use after `n` pages went out. -/
theorem exists_run_used (n : Nat) (hn : n ≤ maxSwap) : ∃ k ops,
    Run (fun k op k' => SwapOp.Step k op k') raidBoot ops k ∧ SwapOk k ∧
      k.disk.raidMode = .raid0 ∧ ∀ s, (k.swaptable s).used = decide (s.val < n) := by
  induction n with
  | zero => exact ⟨raidBoot, [], .nil, .boot _ _, rfl, fun _ => rfl⟩
  | succ n ih =>
    obtain ⟨k, ops, hrun, hok, hmode, hused⟩ := ih (Nat.le_of_succ_le hn)
    obtain ⟨k', hstep, hmode', htable⟩ := swapout_allMapped hok (s := ⟨n, hn⟩) (by simp [hused])
      (by
        intro t hlt
        rw [hused]
        exact decide_eq_true hlt)
      (by
        rw [hmode]
        exact (slotFits_iff hn).mpr trivial)
    have hother : SwapOp.Step k .other (k.setTables allMapped) := ⟨rfl, rfl⟩
    refine ⟨k', _, .snoc (.snoc hrun hother) hstep, (hok.step hother).step hstep, hmode'.trans hmode, ?_⟩
    intro s
    rw [htable]
    by_cases hs : s = ⟨n, hn⟩
    · subst hs
      rw [update_self]
      simp
    · have hne : s.val ≠ n := fun h => hs (Fin.ext h)
      rw [update_of_ne hs, hused]
      simp only [decide_eq_decide]
      omega

/-- **`swapout` panics with free slots left**: after 3584 pages went out under RAID 0 the mode is set to
RAID 1, and the next page is sent beyond the end of the disks. -/
theorem swapout_beyond_disks : ∃ k ops,
    Run (fun k op k' => SwapOp.Step k op k') raidBoot ops k ∧ k.tables = allMapped ∧
      (k.swaptable 3584).used = false ∧ swapout 0 0 0 k = .error (.disk .physWrite) ∧
      ¬ SwapServed 0 0 0 (k.mem 0) k := by
  obtain ⟨k, ops, hrun, hok, -, hused⟩ := exists_run_used 3584 (by decide)
  have hmode : SwapOp.Step k (.setraidmode 1) (k.setDisk { k.disk with raidMode := .raid1 }) := rfl
  have hother : SwapOp.Step (k.setDisk { k.disk with raidMode := .raid1 }) .other
    ((k.setDisk { k.disk with raidMode := .raid1 }).setTables allMapped) := ⟨rfl, rfl⟩
  have hpanic := swapout_panics (k := (k.setDisk { k.disk with raidMode := .raid1 }).setTables allMapped)
    ((hok.step hmode).step hother).idle 0 (s := 3584) (by decide : 0 < maxva)
    (rfl : ((k.setDisk { k.disk with raidMode := .raid1 }).setTables allMapped).tables 0 = some _) rfl (by decide)
    (by
      show (k.swaptable 3584).used = false
      rw [hused]
      decide)
    (by
      intro t hlt
      show (k.swaptable t).used = true
      rw [hused]
      exact decide_eq_true hlt)
    (by
      intro hfit
      have hfit' : SwapDisk.SlotFits .raid1 (3584 : Fin maxSwap) := hfit
      have hlt := (slotFits_iff (3584 : Fin maxSwap).isLt).mp hfit'
      exact absurd hlt (by decide))
  refine ⟨_, _, .snoc (.snoc hrun hmode) hother, rfl, ?_, hpanic, ?_⟩
  · show (k.swaptable 3584).used = false
    rw [hused]
    decide
  · rintro (⟨hserved, -⟩ | ⟨s, k', hserved, -⟩)
    · rw [hpanic] at hserved
      cases hserved
    · rw [hpanic] at hserved
      cases hserved

/-- The first page to go out. -/
theorem swapout_served_iff_first : SwapServed 0 0 0 (raidBoot.mem 0) (raidBoot.setTables allMapped) := by
  have hrun : Run (fun k op k' => SwapOp.Step k op k') raidBoot [.other]
      (raidBoot.setTables allMapped) := .snoc .nil ⟨rfl, rfl⟩
  refine ((swapout_served_iff hrun).2 0 (by decide : 0 < maxva)
    (rfl : (raidBoot.setTables allMapped).tables 0 = some _) rfl (by decide)).mpr ?_
  intro s _ _
  trivial

/-- The run in which process 0 writes one page. -/
theorem exists_run_page : ∃ k log, Run loggedStep (raidBoot.setTables allMapped, [])
    [.swapout 0 0 0 (some 0)] (k, log) := by
  obtain ⟨k', hstep, -, -⟩ := swapout_allMapped (k := raidBoot) (SwapOk.boot _ _) (s := 0) rfl
    (fun t hlt => absurd hlt (Nat.not_lt_zero _)) ((slotFits_iff (by decide)).mpr trivial)
  exact ⟨k', _, .snoc .nil ⟨hstep, rfl⟩⟩

/-- For a process that moved nothing the counters are right. -/
theorem disk_accounting_iff_other : ∃ k log, Run loggedStep (raidBoot.setTables allMapped, [])
    [.swapout 0 0 0 (some 0)] (k, log) ∧
      (k.disk.stats 1).diskWrites.toInt - (raidBoot.disk.stats 1).diskWrites.toInt =
        SwapDisk.requestsOf 1 true log := by
  obtain ⟨k, log, hrun⟩ := exists_run_page
  refine ⟨k, log, hrun, ?_⟩
  refine ((disk_accounting_iff (swapDiskInit_idle) 1 hrun).mpr ?_).1
  intro op hop w
  rw [List.mem_singleton.mp hop]
  simp [SwapOp.moved]

/-- **A page written counts five times**: four requests were served for it. -/
theorem disk_accounting_page : ∃ k log, Run loggedStep (raidBoot.setTables allMapped, [])
    [.swapout 0 0 0 (some 0)] (k, log) ∧ SwapDisk.requestsOf 0 true log = 4 ∧
      (k.disk.stats 0).diskWrites.toInt - (raidBoot.disk.stats 0).diskWrites.toInt = 5 := by
  obtain ⟨k, log, hrun⟩ := exists_run_page
  obtain ⟨-, hreq, hcount⟩ := loggedRun_counters swapDiskInit_idle rfl 0 true hrun
  refine ⟨k, log, hrun, hreq, ?_⟩
  change (k.disk.stats 0).diskWrites = _ at hcount
  rw [hcount]
  decide

end Xv6
