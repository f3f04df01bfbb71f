import Xv6.Lib.Transition
import Xv6.SwapDisk.Pages

/-!
# The swap store against a flat array of pages

What the disks are for: a slot that is in use gives back the page last written to it. The three
address maps overlap, so this is not true of every run. Two things can go wrong, and both are one
relation, `Clash mode slot mode' slot'`: a block that is written (or zeroed) for `slot` under `mode` is
a block in which `slot'`, written under `mode'`, keeps its data.

**In a run without clashes the disks refine the flat array** (`swapInPage_of_noClash`); a run with one
clash need not (`swapInPage_clash`). Slots below 512 never clash, whatever the modes
(`not_clash_of_lt`), so a run on such slots has no clash (`Small.guarded`).
-/

namespace Xv6.SwapDisk

open Function Transition

/-- Writing or freeing `slot` under `mode` hits a block that holds data of `slot'` under `mode'`. -/
def Clash (mode : RaidMode) (slot : Nat) (mode' : RaidMode) (slot' : Nat) : Prop :=
  ∃ i j, dataCell mode' (slotBlock slot' j) ∈ writtenCells mode (slotBlock slot i)

/-! ## Runs of the store -/

/-- The disks together with `swaptable[].used`. -/
structure Store where
  disk : State
  used : Fin maxSwap → Bool

/-- The operations on the store. `swapOut` is `swap_out_page` on a slot `swapout` has reserved, `free`
is `swap_free`. -/
inductive StoreOp where
  | swapOut (me : Caller) (page : Page) (slot : Fin maxSwap)
  | swapIn (me : Caller) (buf : Page) (slot : Fin maxSwap)
  | free (slot : Fin maxSwap)
  | setMode (mode : Int)

/-- One operation; no step for an operation that panics. -/
def storeStep (st : Store) : StoreOp → Store → Prop
  | .swapOut me page slot, st' => ∃ d, swapOutPage me page slot st.disk = .ok ((), d) ∧
      st' = ⟨d, update st.used slot true⟩
  | .swapIn me buf slot, st' => ∃ page d, swapInPage me buf slot st.disk = .ok (page, d) ∧
      st' = ⟨d, st.used⟩
  | .free slot, st' => st' = ⟨swapDiskFreeSlot slot st.disk, update st.used slot false⟩
  | .setMode mode, st' => st' = ⟨(setraidmode mode st.disk).2, st.used⟩

/-- The slot an operation writes or frees does not clash with any other slot in use. -/
def NoClash (st : Store) : StoreOp → Prop
  | .swapOut _ _ slot => ∀ t, st.used t = true → t ≠ slot →
      ¬ Clash st.disk.raidMode slot (st.disk.slotMode t) t
  | .free slot => ∀ t, st.used t = true → t ≠ slot →
      ¬ Clash (st.disk.slotMode slot) slot (st.disk.slotMode t) t
  | _ => True

/-- The page of the last `swap_out_page` to a slot: the flat array. -/
def lastOut (slot : Fin maxSwap) : List StoreOp → Option Page
  | [] => none
  | .swapOut _ page s :: ops => (lastOut slot ops).or (if s = slot then some page else none)
  | _ :: ops => lastOut slot ops

def storeInit : Store := ⟨swapDiskInit, fun _ => false⟩

theorem lastOut_append (slot : Fin maxSwap) (op : StoreOp) : ∀ ops : List StoreOp,
    lastOut slot (ops ++ [op]) = (lastOut slot [op]).or (lastOut slot ops)
  | [] => by simp [lastOut]
  | .swapOut me page s :: ops => by
      simp only [List.cons_append, lastOut, lastOut_append slot op ops, Option.or_assoc]
  | .swapIn me buf s :: ops => by
      simp only [List.cons_append, lastOut, lastOut_append slot op ops]
  | .free s :: ops => by
      simp only [List.cons_append, lastOut, lastOut_append slot op ops]
  | .setMode m :: ops => by
      simp only [List.cons_append, lastOut, lastOut_append slot op ops]

/-- What ties the disks to the flat array `flat`: the queue is idle, and every slot in use fits the
mode it was written in and holds its page. -/
structure Holds (st : Store) (flat : Fin maxSwap → Option Page) : Prop where
  idle : st.disk.queue.Idle
  fits : ∀ t, st.used t = true → SlotFits (st.disk.slotMode t) t
  page : ∀ t, st.used t = true → flat t = some (loadPage (st.disk.slotMode t) t st.disk.disks)

/-- A page survives the writes that do not clash with it. -/
theorem storePage_of_not_clash {mode mode' : RaidMode} {slot slot' : Nat} (page : Page)
    (disks : Disks) (h : ¬ Clash mode slot mode' slot') :
    loadPage mode' slot' (storePage mode slot page disks) = loadPage mode' slot' disks := by
  apply loadPage_congr
  intro j
  apply storeChunks_of_notMem
  intro i _ hmem
  exact h ⟨i, j, hmem⟩

/-- The disks after `swap_disk_free_slot` zeroed the blocks `is` of a slot. -/
def freedDisks (mode : RaidMode) (slot : Nat) (is : List (Fin blocksPerPage)) (disks : Disks) :
    Disks :=
  is.foldl (fun ds i => zeroCells (slotBlock slot i) ds mode) disks

/-- Zeroing the blocks of a slot keeps the page of every slot it does not clash with. -/
theorem freedDisks_of_not_clash {mode mode' : RaidMode} {slot slot' : Nat} (disks : Disks)
    (h : ¬ Clash mode slot mode' slot') (is : List (Fin blocksPerPage)) :
    loadPage mode' slot' (freedDisks mode slot is disks) = loadPage mode' slot' disks := by
  unfold freedDisks
  induction is generalizing disks with
  | nil => rfl
  | cons i is ih =>
    rw [List.foldl_cons, ih]
    apply loadPage_congr
    intro j
    exact zeroCells_of_notMem _ (fun hmem => h ⟨i, j, hmem⟩)

theorem swapDiskFreeSlot_eq {slot : Nat} (h : slot < maxSwap) (d : State) :
    swapDiskFreeSlot slot d = { d with
      disks := freedDisks (d.slotMode slot) slot (List.finRange blocksPerPage) d.disks
      slotMode := update d.slotMode slot .raid0 } := by
  unfold swapDiskFreeSlot
  rw [if_neg (Nat.not_le.mpr h)]
  rfl

theorem slot_val_ne {s t : Fin maxSwap} (h : t ≠ s) : t.val ≠ s.val := fun h' => h (Fin.ext h')

/-- **One operation**: a step without a clash keeps the disks and the flat array together. -/
theorem Holds.step {st st' : Store} {op : StoreOp} {ops : List StoreOp}
    (h : Holds st (fun t => lastOut t ops)) (hc : NoClash st op) (hs : storeStep st op st') :
    Holds st' (fun t => lastOut t (ops ++ [op])) := by
  cases op with
  | swapOut me page slot =>
    obtain ⟨d, hrun, rfl⟩ := hs
    have hfit : SlotFits st.disk.raidMode slot := by
      by_contra hfit
      rw [swapOutPage_panic h.idle me page slot.isLt hfit] at hrun
      cases hrun
    obtain ⟨q, stats, hq, hrun'⟩ := swapOutPage_run h.idle me page slot.isLt hfit
    rw [hrun'] at hrun
    cases hrun
    refine ⟨hq, ?_, ?_⟩
    · intro t ht
      by_cases hts : t = slot
      · subst hts
        simpa using hfit
      · have hused : st.used t = true := by simpa [hts] using ht
        simpa [slot_val_ne hts] using h.fits t hused
    · intro t ht
      dsimp only
      rw [lastOut_append]
      by_cases hts : t = slot
      · subst hts
        simp [lastOut, loadPage_storePage]
      · have hused : st.used t = true := by simpa [hts] using ht
        have hne : slot ≠ t := fun h => hts h.symm
        simp only [lastOut, hne, if_false, Option.or_none, Option.none_or, slot_val_ne hts,
          update_of_ne, ne_eq, not_false_eq_true]
        rw [storePage_of_not_clash page st.disk.disks (hc t hused hts)]
        exact h.page t hused
  | swapIn me buf slot =>
    obtain ⟨page, d, hrun, rfl⟩ := hs
    have hd : ∃ q stats, q.Idle ∧ d = { st.disk with queue := q, stats := stats } := by
      by_cases hfit : SlotFits (st.disk.slotMode slot) slot
      · obtain ⟨q, stats, hq, hrun'⟩ := swapInPage_run h.idle me buf slot.isLt hfit
        rw [hrun'] at hrun
        cases hrun
        exact ⟨q, stats, hq, rfl⟩
      · rw [swapInPage_panic h.idle me buf slot.isLt hfit] at hrun
        cases hrun
    obtain ⟨q, stats, hq, rfl⟩ := hd
    refine ⟨hq, h.fits, ?_⟩
    intro t ht
    dsimp only
    rw [lastOut_append]
    simpa [lastOut] using h.page t ht
  | free slot =>
    cases hs
    rw [swapDiskFreeSlot_eq slot.isLt]
    refine ⟨h.idle, ?_, ?_⟩
    · intro t ht
      by_cases hts : t = slot
      · simp [hts] at ht
      · have hused : st.used t = true := by simpa [hts] using ht
        simpa [slot_val_ne hts] using h.fits t hused
    · intro t ht
      dsimp only
      rw [lastOut_append]
      by_cases hts : t = slot
      · simp [hts] at ht
      · have hused : st.used t = true := by simpa [hts] using ht
        simp only [lastOut, Option.none_or, slot_val_ne hts, update_of_ne, ne_eq,
          not_false_eq_true]
        rw [freedDisks_of_not_clash st.disk.disks (hc t hused hts)]
        exact h.page t hused
  | setMode mode =>
    cases hs
    have hd : (setraidmode mode st.disk).2.queue = st.disk.queue ∧
        (setraidmode mode st.disk).2.slotMode = st.disk.slotMode ∧
        (setraidmode mode st.disk).2.disks = st.disk.disks := by
      unfold setraidmode
      split <;> exact ⟨rfl, rfl, rfl⟩
    obtain ⟨hq, hm, hdk⟩ := hd
    refine ⟨by rw [hq]; exact h.idle, ?_, ?_⟩
    · intro t ht
      rw [hm]
      exact h.fits t ht
    · intro t ht
      dsimp only
      rw [lastOut_append, hm, hdk]
      simpa [lastOut] using h.page t ht

/-- The disks hold what was swapped out last, in every run without a clash. -/
theorem Holds.run {ops : List StoreOp} {st : Store}
    (h : Run (Guarded storeStep NoClash) storeInit ops st) :
    Holds st (fun t => lastOut t ops) := by
  induction h with
  | nil =>
    refine ⟨fun _ => rfl, ?_, ?_⟩
    · intro t ht
      cases ht
    · intro t ht
      cases ht
  | snoc _ hs ih => exact ih.step hs.1 hs.2

/-- **The store refines a flat array of pages in every run without a clash**: `swap_in_page` on a slot
in use returns, without a panic, the page of the last `swap_out_page` to that slot. -/
theorem swapInPage_of_noClash {ops : List StoreOp} {st : Store}
    (h : Run (Guarded storeStep NoClash) storeInit ops st)
    {slot : Fin maxSwap} (hu : st.used slot = true) (me : Caller) (buf : Page) :
    ∃ page d, lastOut slot ops = some page ∧
      swapInPage me buf slot st.disk = .ok (page, d) := by
  have hh := Holds.run h
  obtain ⟨q, stats, -, hrun⟩ := swapInPage_run hh.idle me buf slot.isLt (hh.fits slot hu)
  exact ⟨_, _, hh.page slot hu, hrun⟩

/-! ## Small slots -/

/-- **Slots below 512 never clash**: then the blocks of the modes lie below 512, from 2048 on and
from 4096 on, and under one mode two slots share no block. -/
theorem not_clash_of_lt {mode mode' : RaidMode} {slot slot' : Nat} (h : slot < 512) (h' : slot' < 512)
    (hne : slot ≠ slot') : ¬ Clash mode slot mode' slot' := by
  rintro ⟨i, j, hmem⟩
  have hi : i.val < 4 := i.isLt
  have hj : j.val < 4 := j.isLt
  have hlb : slotBlock slot i < 2048 ∧ slotBlock slot' j < 2048 ∧ slotBlock slot i ≠ slotBlock slot' j := by
    show slot * 4 + i.val < 2048 ∧ slot' * 4 + j.val < 2048 ∧ slot * 4 + i.val ≠ slot' * 4 + j.val
    omega
  generalize slotBlock slot i = lb, slotBlock slot' j = lb' at hmem hlb
  have hrow : raid5Row lb = lb / 3 ∧ raid5Row lb' = lb' / 3 := ⟨rfl, rfl⟩
  have hparity : raid5Disk lb' ≠ parityDisk (raid5Row lb') := raid5Disk_ne_parityDisk lb'
  have hinj : raid5Disk lb = raid5Disk lb' → raid5Row lb = raid5Row lb' → lb = lb' := raid5_injective
  cases mode <;> cases mode' <;>
    simp only [writtenCells, dataCell, ndisks, diskBlocksPerDisk, List.mem_cons, List.not_mem_nil, or_false,
      Prod.mk.injEq] at hmem
  case raid5.raid5 =>
    rcases hmem with ⟨hd, hr⟩ | ⟨hd, hr⟩
    · exact hlb.2.2 (hinj hd.symm (by omega))
    · exact hparity (hd.trans (congrArg parityDisk (by omega)))
  all_goals omega

/-- The operation is on a slot below 512. -/
def StoreOp.Small : StoreOp → Prop
  | .swapOut _ _ slot | .swapIn _ _ slot | .free slot => slot.val < 512
  | .setMode _ => True

instance : (op : StoreOp) → Decidable op.Small
  | .swapOut _ _ slot | .swapIn _ _ slot | .free slot => inferInstanceAs (Decidable (slot.val < 512))
  | .setMode _ => isTrue trivial

/-- Only slots below 512 are in use. -/
def Small (st : Store) : Prop := ∀ t, st.used t = true → t.val < 512

/-- Slots below 512 do not clash. -/
theorem Small.noClash {st : Store} {op : StoreOp} (h : Small st) (hop : op.Small) : NoClash st op := by
  cases op with
  | swapOut me page slot => exact fun t ht hne => not_clash_of_lt hop (h t ht) (slot_val_ne hne).symm
  | free slot => exact fun t ht hne => not_clash_of_lt hop (h t ht) (slot_val_ne hne).symm
  | swapIn me buf slot => trivial
  | setMode mode => trivial

theorem Small.step {st st' : Store} {op : StoreOp} (h : Small st) (hop : op.Small) (hs : storeStep st op st') :
    Small st' := by
  cases op with
  | swapOut me page slot =>
    obtain ⟨d, -, rfl⟩ := hs
    intro t ht
    by_cases hts : t = slot
    · exact hts ▸ hop
    · exact h t (by simpa [hts] using ht)
  | swapIn me buf slot =>
    obtain ⟨page, d, -, rfl⟩ := hs
    exact h
  | free slot =>
    cases hs
    intro t ht
    by_cases hts : t = slot
    · simp [hts] at ht
    · exact h t (by simpa [hts] using ht)
  | setMode mode =>
    cases hs
    exact h

/-- **A run on small slots has no clash**, whatever modes are set on the way. -/
theorem Small.guarded {ops : List StoreOp} {st : Store} (h : Run storeStep storeInit ops st)
    (hops : ∀ op ∈ ops, op.Small) : Run (Guarded storeStep NoClash) storeInit ops st := by
  have hsmall : Run (Guarded storeStep fun _ op => op.Small) storeInit ops st := h.guarded hops
  have hboth : Small st ∧ Run (Guarded storeStep NoClash) storeInit ops st := by
    clear h hops
    induction hsmall with
    | nil => exact ⟨fun t ht => (by cases ht), .nil⟩
    | snoc _ hs ih => exact ⟨ih.1.step hs.1 hs.2, ih.2.snoc ⟨ih.1.noClash hs.1, hs.2⟩⟩
  exact hboth.2

/-! ## Runs by evaluation -/

/-- A step, computed. -/
def StoreOp.exec (st : Store) : StoreOp → Option Store
  | .swapOut me page slot =>
    match swapOutPage me page slot st.disk with
    | .ok (_, d) => some ⟨d, update st.used slot true⟩
    | .error _ => none
  | .swapIn me buf slot =>
    match swapInPage me buf slot st.disk with
    | .ok (_, d) => some ⟨d, st.used⟩
    | .error _ => none
  | .free slot => some ⟨swapDiskFreeSlot slot st.disk, update st.used slot false⟩
  | .setMode mode => some ⟨(setraidmode mode st.disk).2, st.used⟩

theorem StoreOp.step_of_exec {st st' : Store} {op : StoreOp} (h : op.exec st = some st') : storeStep st op st' := by
  cases op with dsimp only [StoreOp.exec] at h
  | swapOut me page slot =>
    split at h
    · next d hrun => exact ⟨d, hrun, (Option.some.inj h).symm⟩
    · cases h
  | swapIn me buf slot =>
    split at h
    · next page d hrun => exact ⟨page, d, hrun, (Option.some.inj h).symm⟩
    · cases h
  | free slot => exact (Option.some.inj h).symm
  | setMode mode => exact (Option.some.inj h).symm

def callerZero : Caller := ⟨0, 0⟩

/-- A page filled with one byte. -/
def fillPage (b : UInt8) : Page := fun _ => b

/-- Slots written under each of the modes, one of them twice, and one freed. -/
def mixedModes : List StoreOp :=
  [.swapOut callerZero (fillPage 7) 0, .setMode 1, .swapOut callerZero (fillPage 8) 1, .setMode 2,
    .swapOut callerZero (fillPage 9) 2, .swapOut callerZero (fillPage 6) 3, .free 2,
    .swapOut callerZero (fillPage 5) 1]

/-- A run with slots of all three modes in use: the page that was written under RAID 0 comes back,
and so does the page that replaced one under RAID 1. -/
theorem swapInPage_of_noClash_mixedModes : ∃ st, Run (Guarded storeStep NoClash) storeInit mixedModes st ∧
    (∃ d, swapInPage callerZero (fillPage 0) (0 : Fin maxSwap) st.disk = .ok (fillPage 7, d)) ∧
    ∃ d, swapInPage callerZero (fillPage 0) (1 : Fin maxSwap) st.disk = .ok (fillPage 5, d) := by
  have hexec : (mixedModes.foldlM StoreOp.exec storeInit).any fun st => st.used 0 ∧ st.used 1 := by decide +kernel
  obtain ⟨st, hrun, hused⟩ := Run.of_exec hexec fun _ _ _ => StoreOp.step_of_exec
  obtain ⟨hzero, hone⟩ := of_decide_eq_true hused
  have hguarded := Small.guarded hrun (by decide)
  obtain ⟨page₀, d₀, hlast₀, hin₀⟩ := swapInPage_of_noClash hguarded hzero callerZero (fillPage 0)
  obtain ⟨page₁, d₁, hlast₁, hin₁⟩ := swapInPage_of_noClash hguarded hone callerZero (fillPage 0)
  cases hlast₀
  cases hlast₁
  exact ⟨st, hguarded, ⟨d₀, hin₀⟩, d₁, hin₁⟩

/-- **A clash loses a page.** Slot 0 is written under RAID 1 (blocks 2048 to 2051 of disks 0 and 1),
then slot 2048 under RAID 0 (block 2048 of all disks). Nothing panics, slot 0 is still in use, and
`swap_in_page` no longer returns what was written to it. -/
theorem swapInPage_clash :
    ∃ ops st page d, Run storeStep storeInit ops st ∧ st.used 0 = true ∧
      lastOut 0 ops = some (fillPage 1) ∧
      swapInPage callerZero (fillPage 0) (0 : Fin maxSwap) st.disk = .ok (page, d) ∧
      page ≠ fillPage 1 := by
  have hexec : ([.setMode 1, .swapOut callerZero (fillPage 1) 0, .setMode 0,
      .swapOut callerZero (fillPage 2) 2048].foldlM StoreOp.exec storeInit).any fun st => st.used 0 ∧
        (swapInPage callerZero (fillPage 0) (0 : Fin maxSwap) st.disk).toOption.any
          fun r => r.1 ⟨0, by decide⟩ ≠ 1 := by
    decide +kernel
  obtain ⟨st, hrun, hst⟩ := Run.of_exec hexec fun _ _ _ => StoreOp.step_of_exec
  obtain ⟨hused, hin⟩ := of_decide_eq_true hst
  obtain ⟨⟨page, d⟩, hin, hbyte⟩ := (Option.any_eq_true _ _).mp hin
  refine ⟨_, st, page, d, hrun, hused, rfl, ?_, fun h => of_decide_eq_true hbyte (congrFun h _)⟩
  cases hrun' : swapInPage callerZero (fillPage 0) (0 : Fin maxSwap) st.disk with
  | error e => rw [hrun'] at hin; cases hin
  | ok r => rw [hrun'] at hin; exact congrArg Except.ok (Option.some.inj hin)

end Xv6.SwapDisk
