import Xv6.Vm.EvictSpec
import Xv6.Vm.Proc

/-!
# Allocation with memory to spare

As long as the free list is not empty and fewer than `MAX_FRAMES` frames are in use, `kalloc` and
`get_frame` take their pages from the list, and `clock_evict` is not called. This module counts the
pages that the building of an address space takes: one for the root, two for each of the special
pages, and three for each user page, which are the page itself and at most two tables on the way to
its entry.
-/

namespace Xv6

open TraceM

variable {D : Type} {k k' : Kernel D} {me : ProcId} {pt va n m newsz lo a : Nat} {xperm perm : Pte}

/-- The free list has `n` pages, and `m` more frames may be in use. -/
structure Spare (n m : Nat) (k : Kernel D) : Prop where
  lock : k.framelock = false
  pages : n ≤ k.freelist.length
  nonzero : 0 ∉ k.freelist
  frames : k.activeFrames + m ≤ maxFrames

namespace Spare

theorem mono {n' m' : Nat} (h : Spare n m k) (hn : n' ≤ n) (hm : m' ≤ m) : Spare n' m' k :=
  ⟨h.lock, hn.trans h.pages, h.nonzero, by have := h.frames; omega⟩

theorem congr (h : Spare n m k) (hlock : k'.framelock = k.framelock) (hfree : k'.freelist = k.freelist)
    (hactive : k'.activeFrames = k.activeFrames) : Spare n m k' := by
  refine ⟨hlock.trans h.lock, ?_, ?_, ?_⟩
  · rw [hfree]
    exact h.pages
  · rw [hfree]
    exact h.nonzero
  · rw [hactive]
    exact h.frames

variable [SwapStore D]

/-- `kalloc` takes one page. -/
theorem kalloc (h : Spare (n + 1) m k) :
    Sat .silent (Xv6.kalloc me) (fun pa k' => pa ≠ 0 ∧ Spare n m k') k := by
  have hpages := h.pages
  have hzero := h.nonzero
  unfold Xv6.kalloc
  apply Sat.seq_get
  cases hl : k.freelist with
  | nil =>
    rw [hl] at hpages
    cases hpages
  | cons pa rest =>
    rw [hl, List.length_cons] at hpages
    rw [hl, List.mem_cons, not_or] at hzero
    refine Sat.seq (Sat.of_ok rfl (Sat.seq_update (Sat.ret ⟨Ne.symm hzero.1, ?_⟩)))
    exact ⟨h.lock, Nat.le_of_succ_le_succ hpages, hzero.2, h.frames⟩

/-- `get_frame` takes one page. -/
theorem getFrame (h : Spare (n + 1) (m + 1) k) :
    Sat .silent (Xv6.getFrame me) (fun pa k' => pa ≠ 0 ∧ Spare n (m + 1) k') k := by
  have hlt : (k.setLock true).activeFrames < maxFrames := by
    have hframes := h.frames
    rw [Nat.cast_succ] at hframes
    show k.activeFrames < maxFrames
    omega
  have hlocked : (k.setLock true).setLock false = k := by
    unfold Kernel.setLock
    rw [← h.lock]
  unfold Xv6.getFrame
  apply Sat.seq_run (acquireFramelock_run h.lock)
  apply Sat.seq_get
  apply Sat.seq_run (releaseFramelock_run rfl)
  rw [hlocked, if_pos hlt]
  refine Sat.seq (h.kalloc.mono ?_)
  rintro pa k₁ ⟨h0, h₁⟩
  rw [if_neg h0]
  exact Sat.ret ⟨h0, h₁⟩

theorem frametableAlloc {pa : Nat} {p : ProcId} (h : Spare n (m + 1) k) (hpa : pa ≠ 0) :
    Sat .silent (Xv6.frametableAlloc me pa p va) (fun _ k' => Spare n m k') k := by
  have hframes := h.frames
  by_cases hfull : ∀ i, (k.frametable i).used = true
  · exact Sat.of_error (frametableAllocBody_again h.lock hpa hfull) trivial
  · obtain ⟨i, hi⟩ := not_forall.mp hfull
    unfold Xv6.frametableAlloc frametableAllocFor frametableAllocBody
    apply Sat.seq_run (acquireFramelock_run h.lock)
    rw [if_neg hpa]
    apply Sat.seq_get
    split
    · refine Sat.seq_update (Sat.of_ok (releaseFramelock_run rfl) ⟨rfl, h.pages, h.nonzero, ?_⟩)
      rw [Nat.cast_succ] at hframes
      show k.activeFrames + 1 + (m : Int) ≤ maxFrames
      omega
    · next hnone =>
        have hused : (!(k.frametable i).used) = false := firstIdx_eq_none.mp hnone i
        exact absurd ((Bool.not_eq_eq_eq_not ..).mp hused) hi

theorem walkMid {v : Vpn} (h : Spare (n + 1) m k) :
    Sat .silent (Xv6.walkMid me pt v) (fun ok k' => ok = true ∧ Spare n m k') k := by
  unfold Xv6.walkMid
  apply Sat.seq_get
  split
  · exact Sat.ret ⟨rfl, h.mono n.le_succ le_rfl⟩
  · refine Sat.seq (h.kalloc.mono ?_)
    rintro page k₁ ⟨h0, h₁⟩
    rw [if_neg h0]
    exact Sat.seq_update (Sat.ret ⟨rfl, h₁.congr rfl rfl rfl⟩)

theorem walkLeaf {v : Vpn} (h : Spare (n + 1) m k) :
    Sat .silent (Xv6.walkLeaf me pt v) (fun ok k' => ok = true ∧ Spare n m k') k := by
  unfold Xv6.walkLeaf
  apply Sat.seq_get
  split
  · exact Sat.ret ⟨rfl, h.mono n.le_succ le_rfl⟩
  · refine Sat.seq (h.kalloc.mono ?_)
    rintro page k₁ ⟨h0, h₁⟩
    rw [if_neg h0]
    exact Sat.seq_update (Sat.ret ⟨rfl, h₁.congr rfl rfl rfl⟩)

/-- `walk` takes at most two pages. -/
theorem walkAlloc (h : Spare (n + 2) m k) :
    Sat .silent (Xv6.walkAlloc me pt va) (fun pte k' => pte.isSome ∧ Spare n m k') k := by
  unfold Xv6.walkAlloc
  split
  · exact Sat.of_error rfl trivial
  · refine Sat.seq (h.walkMid.mono ?_)
    rintro _ k₁ ⟨rfl, h₁⟩
    refine Sat.seq (h₁.walkLeaf.mono ?_)
    rintro _ k₂ ⟨rfl, h₂⟩
    exact Sat.ret ⟨rfl, h₂⟩

/-- Mapping one page. -/
theorem mappages {pa : Nat} (h : Spare (n + 2) m k) :
    Sat .silent (Xv6.mappages me pt va pgsize pa perm) (fun res k' => res = 0 ∧ Spare n m k') k := by
  unfold Xv6.mappages
  by_cases hal : va % pgsize = 0
  · rw [if_neg (not_not.mpr hal), if_neg (by decide), if_neg (by decide)]
    unfold mappagesLoop
    refine Sat.seq (h.walkAlloc.mono ?_)
    rintro pte k₁ ⟨hpte, h₁⟩
    obtain ⟨pte, rfl⟩ := Option.isSome_iff_exists.mp hpte
    dsimp only
    cases he : k₁.tables.entry pte.table pte.page with
    | none =>
      refine Sat.of_error (e := .kerneltrap) (bind_of_error ?_) trivial
      unfold deref
      simp [he]
    | some e =>
      apply Sat.seq_run (deref_run he)
      split
      · exact Sat.of_error rfl trivial
      · exact Sat.seq_run (assign_run _ _) (Sat.ret ⟨rfl, h₁.congr rfl rfl rfl⟩)
  · rw [if_pos hal]
    exact Sat.of_error rfl trivial

/-- A page of the image takes at most three. -/
theorem growPage (h : Spare (n + 3) (m + 1) k) :
    Sat .silent (Xv6.growPage me pt a xperm) (fun ok k' => ok = true ∧ Spare n m k') k := by
  unfold Xv6.growPage
  refine Sat.seq (h.getFrame.mono ?_)
  rintro mem k₁ ⟨h0, h₁⟩
  rw [if_neg h0]
  apply Sat.seq_update
  have h₁' : Spare (n + 2) (m + 1) (k₁.setMem mem (junk 0)) := h₁.congr rfl rfl rfl
  refine Sat.seq (h₁'.mappages.mono ?_)
  rintro _ k₂ ⟨rfl, h₂⟩
  refine Sat.seq ((h₂.frametableAlloc h0).mono ?_)
  intro _ k₃ h₃
  exact Sat.ret ⟨rfl, h₃⟩

theorem uvmallocLoop (i : Nat) : ∀ {k : Kernel D} {a : Nat}, Spare (n + 3 * i) (m + i) k →
    Sat .silent (Xv6.uvmallocLoop me pt lo newsz xperm i a) (fun res k' => res = newsz ∧ Spare n m k') k := by
  induction i with
  | zero => exact fun h => Sat.ret ⟨rfl, h⟩
  | succ i ih =>
    intro k a h
    rw [Nat.mul_succ, ← Nat.add_assoc, ← Nat.add_assoc] at h
    rw [uvmallocLoop_succ]
    refine Sat.seq (h.growPage.mono ?_)
    rintro _ k₁ ⟨rfl, h₁⟩
    exact ih h₁

/-- `proc_pagetable` takes at most five. -/
theorem procPagetable {p : ProcId} (h : Spare (n + 5) m k) :
    Sat .silent (Xv6.procPagetable me p) (fun _ k' => Spare n m k') k := by
  unfold Xv6.procPagetable uvmcreate
  refine Sat.seq (Sat.seq (h.kalloc.mono ?_))
  rintro pt k₁ ⟨h0, h₁⟩
  rw [if_neg h0]
  refine Sat.seq_update (Sat.ret ?_)
  rw [if_neg h0]
  apply Sat.seq_get
  have h₁' : Spare (n + 4) m (k₁.setTables (Function.update k₁.tables pt (some .empty))) := h₁.congr rfl rfl rfl
  refine Sat.seq (h₁'.mappages.mono ?_)
  rintro _ k₂ ⟨rfl, h₂⟩
  refine Sat.seq (h₂.mappages.mono ?_)
  rintro _ k₃ ⟨rfl, h₃⟩
  exact Sat.ret h₃

end Spare

end Xv6
