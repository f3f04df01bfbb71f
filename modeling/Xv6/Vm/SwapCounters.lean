import Xv6.Vm.SwapBalance
import Xv6.Vm.System

/-!
# The swap counters over runs

`kfork` gives the child counters at zero and a table without pages, so the child starts balanced; what
it does to the tables of the processes that were there before is moves. With the other calls, which are
moves and releases, this gives the equation between the counters for whole runs.
-/

namespace Xv6

open Function Transition Kernel

variable {D : Type} {k k' k'' : Kernel D} {r pt pa va n : Nat} {v : Vpn} {e : Pte} {p q np me : ProcId}
  {x : Option ProcId}

open TraceM

/-! ## Processes that a call leaves alone -/

/-- All processes but `x` keep their tables, and their accounts unless they have the table `pt`. -/
structure Spares (x : Option ProcId) (pt : Nat) (k k' : Kernel D) : Prop where
  pagetable : ∀ q, some q ≠ x → (k'.proc q).pagetable = (k.proc q).pagetable
  accounts : ∀ q r n, some q ≠ x → r ≠ 0 → r ≠ pt → k.Accounts q r n → k'.Accounts q r n

namespace Spares

theorem refl : Spares x pt k k := ⟨fun _ _ => rfl, fun _ _ _ _ _ _ => id⟩

theorem trans (h : Spares x pt k k') (h' : Spares x pt k' k'') : Spares x pt k k'' :=
  ⟨fun q hq => (h'.pagetable q hq).trans (h.pagetable q hq),
    fun q r n hq h0 hr hk => h'.accounts q r n hq h0 hr (h.accounts q r n hq h0 hr hk)⟩

/-- No table need be excepted. -/
theorem of_zero (h : Spares x 0 k k') : Spares x pt k k' :=
  ⟨h.pagetable, fun q r n hq h0 _ => h.accounts q r n hq h0 h0⟩

theorem of_moves (h : Moves (Move.Within (D := D) tally (· = pt)) k k') : Spares x pt k k' := by
  refine ⟨fun q _ => h.pagetable q, fun q r n _ _ hr hk => hk.moves h fun m hm => hm.mono ?_⟩
  rintro _ rfl
  exact hr.symm

theorem of_unmoved (h : Unmoved k k') : Spares x pt k k' := of_moves h.moves

theorem of_updProc {f : Proc → Proc} (hf : (f (k.proc p)).pagetable = (k.proc p).pagetable ∨
    (f (k.proc p)).pagetable = 0 ∨ (f (k.proc p)).pagetable = pt) : Spares (some p) pt k (k.updProc p f) := by
  have hother : ∀ q, q ≠ p → (k.updProc p f).swaps q = k.swaps q := by
    intro q hq
    rw [swaps_updProc, update_of_ne hq]
  refine ⟨fun q hq => congrArg Swaps.pagetable (hother q fun hf => hq (congrArg some hf)), ?_⟩
  intro q r n hq h0 hr hk
  have hqp : q ≠ p := fun hf => hq (congrArg some hf)
  refine ⟨?_, ?_, ?_⟩
  · rw [hother q hqp]
    exact hk.table
  · intro q' hq'
    by_cases hp : q' = p
    · subst hp
      rw [swaps_updProc, update_self] at hq'
      rcases hf with hf | hf | hf
      · exact hk.alone q' (hf.symm.trans hq')
      · exact absurd (hq'.symm.trans hf) h0
      · exact absurd (hq'.symm.trans hf) hr
    · rw [hother q' hp] at hq'
      exact hk.alone q' hq'
  · have haway : (k.updProc p f).away r = k.away r := away_congr fun _ => rfl
    rw [hother q hqp, haway]
    exact hk.balance

end Spares

/-- Only the table `pt` may have changed. -/
structure Rebuilt (pt : Nat) (k k' : Kernel D) : Prop where
  others : ∀ r, r ≠ pt → k'.tables r = k.tables r
  swaps : k'.swaps = k.swaps

namespace Rebuilt

theorem refl : Rebuilt pt k k := ⟨fun _ _ => rfl, rfl⟩

theorem trans (h : Rebuilt pt k k') (h' : Rebuilt pt k' k'') : Rebuilt pt k k'' :=
  ⟨fun r hr => (h'.others r hr).trans (h.others r hr), h'.swaps.trans h.swaps⟩

theorem of_unmoved (h : Unmoved k k') : Rebuilt pt k k' := ⟨fun _ _ => by rw [h.tables], h.swaps⟩

theorem entry (h : Rebuilt pt k k') (hr : r ≠ pt) (v : Vpn) : k'.tables.entry r v = k.tables.entry r v := by
  unfold Tables.entry
  rw [h.others r hr]

theorem spares (h : Rebuilt pt k k') : Spares x pt k k' := by
  refine ⟨fun q _ => congrArg Swaps.pagetable (congrFun h.swaps q), fun q r n _ _ hr hk => ?_⟩
  exact hk.congr h.swaps (away_congr (h.entry hr))

end Rebuilt

/-! ## Freeing an address space -/

section Free

variable {W : Watch Panic (Eviction D)} (hW : W.Lax)

include hW

theorem freewalkLeaf_rebuilt {i₂ i₁ : Fin 512} {l : LeafTable} :
    Sat W (freewalkLeaf pt i₂ i₁ l) (fun _ k' => Rebuilt pt k k') k := by
  unfold freewalkLeaf
  apply Sat.seq
  refine (Sat.forM (I := fun _ k' => k' = k) ?_ rfl).mono ?_
  · rintro i₀ _ _ rfl
    unfold freewalkEntry
    split
    · split
      · exact Sat.panic (hW.allowed _)
      · exact Sat.panic (hW.allowed _)
    · exact Sat.ret rfl
  · rintro _ _ rfl
    apply Sat.seq
    apply (kfree_unmoved hW _).mono
    intro _ k₁ h₁
    exact Sat.update ((Rebuilt.of_unmoved h₁).trans ⟨fun r hr => Tables.mapTable_of_ne hr, rfl⟩)

theorem freewalkMid_rebuilt {i₂ : Fin 512} {m : MidTable} :
    Sat W (freewalkMid pt i₂ m) (fun _ k' => Rebuilt pt k k') k := by
  unfold freewalkMid
  apply Sat.seq
  refine (Sat.forM (I := fun _ k' => Rebuilt pt k k') ?_ .refl).mono ?_
  · intro i₁ _ k₁ h₁
    split
    · exact Sat.ret h₁
    · exact (freewalkLeaf_rebuilt hW).mono fun _ _ h₂ => h₁.trans h₂
  · intro _ k₁ h₁
    apply Sat.seq
    apply (kfree_unmoved hW _).mono
    intro _ k₂ h₂
    exact Sat.update ((h₁.trans (.of_unmoved h₂)).trans ⟨fun r hr => Tables.mapTable_of_ne hr, rfl⟩)

/-- `freewalk` frees one table and touches no other. -/
theorem freewalk_rebuilt : Sat W (freewalk pt) (fun _ k' => Rebuilt pt k k' ∧ k'.tables pt = none) k := by
  unfold freewalk
  apply Sat.seq_get
  split
  · exact Sat.panic (hW.allowed _)
  · apply Sat.seq
    refine (Sat.forM (I := fun _ k' => Rebuilt pt k k') ?_ .refl).mono ?_
    · intro i₂ _ k₁ h₁
      split
      · exact Sat.ret h₁
      · exact (freewalkMid_rebuilt hW).mono fun _ _ h₂ => h₁.trans h₂
    · intro _ k₁ h₁
      apply Sat.seq
      apply (kfree_unmoved hW _).mono
      intro _ k₂ h₂
      refine Sat.update ⟨(h₁.trans (.of_unmoved h₂)).trans ⟨fun r hr => ?_, rfl⟩, ?_⟩
      · exact update_of_ne hr _ _
      · exact update_self ..

end Free

section Calls

variable [SwapStore D]

theorem uvmfree_spares (sz : Nat) :
    Sat tally (uvmfree pt sz) (fun _ k' => Spares x pt k k' ∧ k'.tables pt = none) k := by
  have hwalk : ∀ {k₁ : Kernel D}, Spares x pt k k₁ →
      Sat tally (freewalk pt) (fun _ k' => Spares x pt k k' ∧ k'.tables pt = none) k₁ := fun h₁ =>
    (freewalk_rebuilt tally_lax).mono fun _ _ h₂ => ⟨h₁.trans h₂.1.spares, h₂.2⟩
  unfold uvmfree
  split
  · apply Sat.seq
    exact (uvmunmap_moves tally_lax _ _ _).mono fun _ k₁ h₁ => hwalk (.of_moves h₁)
  · exact hwalk .refl

theorem procFreepagetable_spares (sz : Nat) :
    Sat tally (procFreepagetable pt sz) (fun _ k' => Spares x pt k k' ∧ k'.tables pt = none) k := by
  unfold procFreepagetable
  apply Sat.seq
  apply (uvmunmap_moves tally_lax _ _ _).mono
  intro _ k₁ h₁
  apply Sat.seq
  apply (uvmunmap_moves tally_lax _ _ _).mono
  intro _ k₂ h₂
  apply (uvmfree_spares sz).mono
  exact fun _ k₃ h₃ => ⟨((Spares.of_moves h₁).trans (.of_moves h₂)).trans h₃.1, h₃.2⟩

/-- `freeproc` leaves the other processes alone and no table behind. -/
theorem freeproc_spares : Sat tally (freeproc p) (fun _ k' =>
    Spares (some p) (k.proc p).pagetable k k' ∧ (k'.proc p).pagetable = 0 ∧
      ((k.proc p).pagetable = 0 → k'.tables = k.tables) ∧
      ((k.proc p).pagetable ≠ 0 → k'.tables (k.proc p).pagetable = none)) k := by
  have hrest : ∀ {k₁ : Kernel D}, Unmoved k k₁ → Sat tally (do
      modify fun k => k.updProc p fun q => { q with trapframe := 0 }
      let q := (← get).proc p
      if q.pagetable ≠ 0 then procFreepagetable q.pagetable q.sz
      modify fun k => k.updProc p Proc.release) (fun _ k' =>
        Spares (some p) (k.proc p).pagetable k k' ∧ (k'.proc p).pagetable = 0 ∧
          ((k.proc p).pagetable = 0 → k'.tables = k.tables) ∧
          ((k.proc p).pagetable ≠ 0 → k'.tables (k.proc p).pagetable = none)) k₁ := by
    intro k₁ h₁
    have h₂ : Unmoved k (k₁.updProc p fun q => { q with trapframe := 0 }) := h₁.trans (.updProc fun _ => rfl)
    have hpt : ((k₁.updProc p fun q => { q with trapframe := 0 }).proc p).pagetable = (k.proc p).pagetable :=
      congrArg Swaps.pagetable (congrFun h₂.swaps p)
    have hgone : ∀ {k₃ : Kernel D}, ((k₃.updProc p Proc.release).proc p).pagetable = 0 := by
      intro k₃
      show (update k₃.proc p (k₃.proc p).release p).pagetable = 0
      rw [update_self]
      rfl
    apply Sat.seq_update
    apply Sat.seq_get
    dsimp only
    rw [hpt]
    by_cases h0 : (k.proc p).pagetable = 0
    · rw [if_neg (not_not.mpr h0)]
      refine Sat.update ⟨?_, hgone, fun _ => h₂.tables, fun hf => absurd h0 hf⟩
      exact (Spares.of_unmoved h₂).trans (.of_updProc (Or.inr (Or.inl rfl)))
    · rw [if_pos h0]
      apply Sat.seq
      apply (procFreepagetable_spares _).mono
      rintro _ k₃ ⟨h₃, hnone⟩
      refine Sat.update ⟨?_, hgone, fun hf => absurd hf h0, fun _ => hnone⟩
      exact ((Spares.of_unmoved h₂).trans h₃).trans (.of_updProc (Or.inr (Or.inl rfl)))
  unfold freeproc
  apply Sat.seq_get
  dsimp only
  split
  · apply Sat.seq
    exact (kfree_unmoved tally_lax _).mono fun _ _ h₁ => hrest h₁
  · exact hrest ⟨rfl, rfl⟩

/-! ## Making a process -/

omit [SwapStore D] in
/-- The process `p` has no table yet and counters at zero. -/
structure Kernel.Fresh (k : Kernel D) (p : ProcId) : Prop where
  swaps : k.swaps p = ⟨0, 0, 0⟩
  bare : ∀ v, k.tables.Hollow 0 v

omit [SwapStore D] in
/-- A process without pages is charged for nothing. -/
theorem Kernel.Fresh.moves {S : Move → Prop} (h : k.Fresh p) (hmoves : Moves S k k')
    (hS : ∀ v, ¬ S (.fill 0 v)) : k'.Fresh p := by
  refine hmoves.invariant (I := fun k => k.Fresh p) h ?_ ?_
  · exact fun k₁ k₂ hI hs => ⟨(congrFun hs.swaps p).trans hI.swaps, fun v => hs.hollow (hI.bare v)⟩
  · intro k₁ m k₂ hI hm hs
    refine ⟨?_, fun v => (Moves.of_move (S := S) hs hm).hollow (hS v) (hI.bare v)⟩
    have hp : (k₁.swaps p).pagetable = 0 := by rw [hI.swaps]
    cases hs with
    | @move _ _ e e' hfits he hw htab hswaps =>
      rw [hswaps, ← hI.swaps]
      cases hw with
      | @out q r v c _ s hV =>
        refine update_of_ne ?_ _ _
        rintro rfl
        rw [← hfits.1, hp] at he
        exact hI.bare _ e he (Or.inl hV)
      | @back q r v _ pa ha =>
        refine update_of_ne ?_ _ _
        rintro rfl
        rw [← hfits, hp] at he
        exact hI.bare _ e he ha.present
      | fill => rfl
      | clear => rfl
      | release => rfl

omit [SwapStore D] in
theorem Kernel.Fresh.rebuilt (h : k.Fresh p) (hre : Rebuilt pt k k') (h0 : pt ≠ 0) : k'.Fresh p := by
  refine ⟨(congrFun hre.swaps p).trans h.swaps, fun v e he => ?_⟩
  rw [hre.entry h0.symm] at he
  exact h.bare v e he

theorem uvmcreate_rebuilt : Sat tally (uvmcreate me) (fun pt k' =>
    (pt = 0 ∧ Moves (Move.IsOut (D := D) tally) k k') ∨
      (pt ≠ 0 ∧ (∀ v, k'.tables.entry pt v = none) ∧
        ∃ k₁, Moves (Move.IsOut (D := D) tally) k k₁ ∧ Rebuilt pt k₁ k')) k := by
  unfold uvmcreate
  apply Sat.seq
  apply (kalloc_moves tally_lax me).mono
  rintro pt k₁ ⟨h₁, -⟩
  split
  · next h0 => exact Sat.ret (Or.inl ⟨rfl, h₁⟩)
  · next h0 =>
      apply Sat.seq_update
      refine Sat.ret (Or.inr ⟨h0, ?_, k₁, h₁, ⟨fun r hr => update_of_ne hr _ _, rfl⟩⟩)
      intro v
      simp [Kernel.setTables, Tables.entry, PageTable.empty, PageTable.entry, PageTable.leafTable]

/-- Nothing came of making a process: a table that was begun is gone. -/
def FailedFork (k k' : Kernel D) : Prop :=
  ∃ x pt, Spares x pt k k' ∧ (pt = 0 ∨ k'.tables pt = none) ∧
    ∀ np, x = some np → (k.proc np).pagetable = 0 ∧ (k'.proc np).pagetable = 0

/-- A new table leaves the accounts of the other processes. -/
theorem procPagetable_spares (h : k.Fresh np) : Sat tally (procPagetable me np) (fun pt k' =>
    (pt ≠ 0 ∧ Spares (some np) pt k k' ∧ k'.Fresh np) ∨
      (pt = 0 ∧ ∃ pt', Spares (some np) pt' k k' ∧ (pt' = 0 ∨ k'.tables pt' = none))) k := by
  unfold procPagetable
  apply Sat.seq
  apply uvmcreate_rebuilt.mono
  rintro pt k₁ (⟨rfl, h₁⟩ | ⟨h0, hnone, k₀, h₀, hre⟩)
  · rw [if_pos rfl]
    exact Sat.ret (Or.inr ⟨rfl, 0, .of_moves (h₁.mono fun _ hm => hm.within), Or.inl rfl⟩)
  · rw [if_neg h0]
    have hspares : Spares (some np) pt k k₁ :=
      (Spares.of_moves (h₀.mono fun _ hm => hm.within)).trans hre.spares
    have hfresh : k₁.Fresh np := (h.moves h₀ fun _ hf => by cases hf).rebuilt hre h0
    -- every way out frees the new table
    have hundo : ∀ {k₂ : Kernel D}, Spares (some np) pt k k₂ → Sat tally (do uvmfree pt 0; pure 0)
        (fun pt k' => (pt ≠ 0 ∧ Spares (some np) pt k k' ∧ k'.Fresh np) ∨
          (pt = 0 ∧ ∃ pt', Spares (some np) pt' k k' ∧ (pt' = 0 ∨ k'.tables pt' = none))) k₂ := by
      intro k₂ h₂
      apply Sat.seq
      apply (uvmfree_spares 0).mono
      exact fun _ k₃ h₃ => Sat.ret (Or.inr ⟨rfl, pt, h₂.trans h₃.1, Or.inr h₃.2⟩)
    have hmap : ∀ {w : Vpn} {m : Move}, m.IsOut (D := D) tally ∨ m = .fill pt w →
        m.Within (D := D) tally (· = pt) := by
      rintro w m (hm | rfl)
      · exact hm.within
      · trivial
    have hnull : ∀ {w v : Vpn}, ¬ ((Move.fill 0 v).IsOut (D := D) tally ∨ Move.fill 0 v = .fill pt w) := by
      rintro w v (hf | hf)
      · cases hf
      · cases hf
        exact h0 rfl
    apply Sat.seq_get
    apply Sat.seq
    apply (mappages_moves tally_lax me pt trampoline _ _ fun e he => by rw [hnone] at he; cases he).mono
    intro res k₂ h₂
    have hspares₂ := hspares.trans (.of_moves (h₂.mono fun _ => hmap))
    split
    · exact hundo hspares₂
    · apply Sat.seq
      have hhollow : k₂.tables.Hollow pt (vpn trapframe) := by
        refine h₂.hollow ?_ fun e he => by rw [hnone] at he; cases he
        rintro (hf | hf)
        · cases hf
        · exact absurd (Move.fill.inj hf).2 (by decide)
      apply (mappages_moves tally_lax me pt trapframe _ _ hhollow).mono
      intro res k₃ h₃
      have hspares₃ := hspares₂.trans (.of_moves (h₃.mono fun _ => hmap))
      split
      · apply Sat.seq
        apply (uvmunmap_moves tally_lax _ _ _).mono
        exact fun _ k₄ h₄ => hundo (hspares₃.trans (.of_moves h₄))
      · exact Sat.ret (Or.inl ⟨h0, hspares₃, (hfresh.moves h₂ fun _ => hnull).moves h₃ fun _ => hnull⟩)

/-- `allocproc` makes a process with counters at zero, or nothing. -/
theorem allocproc_spares (h : Spaces k) : Sat tally (allocproc me) (fun res k' => match res with
    | none => FailedFork k k'
    | some np => (k.proc np).pagetable = 0 ∧ Spares (some np) (k'.proc np).pagetable k k' ∧
        (k'.swaps np).swappedIn = 0 ∧ (k'.swaps np).swappedOut = 0) k := by
  unfold allocproc
  apply Sat.seq_get
  cases hfind : firstIdx fun p => (k.proc p).state == .unused with
  | none => exact Sat.ret ⟨none, 0, .refl, Or.inl rfl, fun _ hf => by cases hf⟩
  | some np =>
    have hvacant : (k.proc np).state = .unused := by simpa using firstIdx_holds hfind
    obtain ⟨hpt, -, -⟩ := (h.each np).vacant hvacant
    apply Sat.seq_run rfl
    apply Sat.seq_update
    -- the slot is claimed
    have hnext : Spares (some np) 0 k { k with nextpid := k.nextpid + 1 } := .of_unmoved ⟨rfl, rfl⟩
    have hclaim := hnext.trans (.of_updProc (f := fun q => q.claim k.nextpid) (Or.inl rfl))
    have hfresh : (({ k with nextpid := k.nextpid + 1 } : Kernel D).updProc np
        fun q => q.claim k.nextpid).Fresh np := by
      refine ⟨?_, fun v e he => ?_⟩
      · rw [swaps_updProc, update_self]
        show Swaps.mk (k.proc np).pagetable 0 0 = _
        rw [hpt]
      · have he' : k.tables.entry 0 v = some e := he
        simp [Tables.entry, h.null] at he'
    apply Sat.seq
    apply (kalloc_moves tally_lax me).mono
    rintro tf k₁ ⟨h₁, -⟩
    have hspares₁ := hclaim.trans (.of_moves (h₁.mono fun _ hm => hm.within))
    have hfresh₁ := hfresh.moves h₁ fun _ hf => by cases hf
    have htf : Unmoved k₁ (k₁.updProc np fun q => { q with trapframe := tf }) := .updProc fun _ => rfl
    have hspares₂ := hspares₁.trans (.of_unmoved htf)
    have hfresh₂ := hfresh₁.moves (htf.moves (S := fun _ => False)) fun _ => id
    -- giving the slot up again
    have hgive : ∀ {k₂ : Kernel D} {pt : Nat}, (k₂.proc np).pagetable = 0 → Spares (some np) pt k k₂ →
        (pt = 0 ∨ k₂.tables pt = none) →
        Sat tally (do freeproc np; pure none) (fun res k' => match res with
          | none => FailedFork k k'
          | some np => (k.proc np).pagetable = 0 ∧ Spares (some np) (k'.proc np).pagetable k k' ∧
              (k'.swaps np).swappedIn = 0 ∧ (k'.swaps np).swappedOut = 0) k₂ := by
      intro k₂ pt hp hs hgone
      apply Sat.seq
      apply freeproc_spares.mono
      rintro _ k₃ ⟨h₃, hp₃, htab, -⟩
      rw [hp] at h₃
      refine Sat.ret ⟨some np, pt, hs.trans h₃.of_zero, ?_, ?_⟩
      · rw [htab hp]
        exact hgone
      · rintro _ ⟨⟩
        exact ⟨hpt, hp₃⟩
    apply Sat.seq_update
    split
    · refine hgive ?_ hspares₂ (Or.inl rfl)
      exact congrArg Swaps.pagetable hfresh₂.swaps
    · apply Sat.seq
      apply (procPagetable_spares hfresh₂).mono
      rintro pt k₃ (⟨h0, hs, hfresh₃⟩ | ⟨rfl, pt', hs, hgone⟩)
      · apply Sat.seq_update
        rw [if_neg h0]
        have hself : (k₃.updProc np fun q => { q with pagetable := pt }).swaps np =
            ⟨pt, (k₃.swaps np).swappedIn, (k₃.swaps np).swappedOut⟩ := by
          rw [swaps_updProc, update_self]
          rfl
        have hptn : ((k₃.updProc np fun q => { q with pagetable := pt }).proc np).pagetable = pt :=
          congrArg Swaps.pagetable hself
        refine Sat.ret ⟨hpt, ?_, ?_, ?_⟩
        · rw [hptn]
          exact (hspares₂.of_zero.trans hs).trans (.of_updProc (Or.inr (Or.inr rfl)))
        · rw [hself, hfresh₃.swaps]
        · rw [hself, hfresh₃.swaps]
      · apply Sat.seq_update
        rw [if_pos rfl]
        refine hgive ?_ ((hspares₂.of_zero.trans hs).trans (.of_updProc (Or.inr (Or.inl rfl)))) hgone
        show (update k₃.proc np { k₃.proc np with pagetable := 0 } np).pagetable = 0
        rw [update_self]

omit [SwapStore D] in
/-- A process of size zero has no page in swap. -/
theorem Consistent.away_eq_empty (h : Consistent k) (hpt : (k.proc p).pagetable ≠ 0) (hsz : (k.proc p).sz = 0) :
    k.away (k.proc p).pagetable = ∅ := by
  obtain ⟨g, hready⟩ := h.ready
  have habove := (h.spaces.each p).above hpt
  rw [hsz] at habove
  apply Finset.eq_empty_of_forall_notMem
  intro v hv
  rw [mem_away] at hv
  obtain ⟨e, he, ha⟩ := hv
  by_cases hs : Special v
  · have hS := hready.inv.pages.special he hs
    rw [ha.2] at hS
    cases hS
  · rw [habove v hs (Nat.zero_le _) e he] at ha
    exact not_present_zero ha.present

/-- **`kfork`**: nothing came of it, or there is a child whose accounts are balanced. -/
theorem kfork_spares (h : Consistent k) (hme : (k.proc me).state ≠ .unused) :
    Sat tally (kfork me) (fun _ k' => FailedFork k k' ∨ ∃ np, (k.proc np).pagetable = 0 ∧
      Spares (some np) (k'.proc np).pagetable k k' ∧ k'.Accounts np (k'.proc np).pagetable 0) k := by
  obtain ⟨g, hready⟩ := h.ready
  unfold kfork
  apply Sat.seq
  apply ((allocproc_spares h.spaces).and (lenient_of_plain (allocproc_spec hready h.spaces))).mono
  rintro res k₁ ⟨hspares, hres⟩
  cases res with
  | none => exact Sat.ret (Or.inl hspares)
  | some np =>
    have hk₁ : Consistent k₁ := Claimed.consistent hres h
    obtain ⟨⟨g₁, hready₁⟩, hspaces₁, hvacant, -, hsize, hpt, huser, hothers⟩ := hres
    obtain ⟨hpt₀, hspares, hin, hout⟩ := hspares
    have hne : me ≠ np := by
      rintro rfl
      exact hme hvacant
    have hme₁ : (k₁.proc me).state ≠ .unused := by
      rw [(hothers me hne).state]
      exact hme
    have hspace := hspaces₁.each me
    have hold := hk₁.live me hme₁
    have hnew : (k₁.proc np).pagetable ≠ (k₁.proc me).pagetable :=
      fun heq => hne (hspaces₁.inj np me hpt heq).symm
    have hchild : k₁.Accounts np (k₁.proc np).pagetable 0 := by
      refine ⟨rfl, fun q hq => (hspaces₁.inj np q hpt hq.symm).symm, ?_⟩
      rw [hin, hout, hk₁.away_eq_empty hpt hsize]
      rfl
    apply Sat.seq_get
    apply Sat.seq
    have hmoves : Sat tally (uvmcopyLoop me _ _ np _ 0) _ k₁ :=
      uvmcopyLoop_moves tally_lax hnew (pgroundup (k₁.proc me).sz / pgsize) rfl
        (fun v hv _ => (huser v hv (Nat.zero_le _)).hollow) rfl
        (by rw [pgroundup_div_mul]; exact pgroundup_le hspace.size)
    apply (hmoves.and (lenient_of_plain (uvmcopy_spec hready₁ rfl (hspace.table hold) hspace.size rfl
      ((hspaces₁.each np).table hpt) hnew huser hspace.size))).mono
    rintro res k₂ ⟨⟨hwithin, hcopy⟩, -, hres⟩
    have hspares₂ := hspares.trans (.of_moves hwithin)
    have hpt₂ : (k₂.proc np).pagetable = (k₁.proc np).pagetable := hwithin.pagetable np
    rcases hres with ⟨rfl, -⟩ | ⟨rfl, -⟩
    · rw [if_neg (by decide)]
      have hchild₂ := hchild.moves (hcopy rfl) fun m hm => hm.within
      -- the fields that are set last are none that count
      have hlast : ∀ {k₃ : Kernel D}, Unmoved k₂ k₃ → Spares (some np) (k₃.proc np).pagetable k k₃ ∧
          k₃.Accounts np (k₃.proc np).pagetable 0 := by
        intro k₃ h₃
        have hpt₃ : (k₃.proc np).pagetable = (k₁.proc np).pagetable :=
          (congrArg Swaps.pagetable (congrFun h₃.swaps np)).trans hpt₂
        rw [hpt₃]
        exact ⟨hspares₂.trans (.of_unmoved h₃),
          hchild₂.congr h₃.swaps (away_congr fun _ => by rw [h₃.tables])⟩
      apply Sat.seq_update
      apply Sat.seq_update
      apply Sat.seq_update
      apply Sat.seq_get
      apply Sat.ret
      have hsz : Unmoved k₂ (k₂.updProc np fun c => { c with sz := (k₂.proc me).sz }) := .updProc fun _ => rfl
      refine Or.inr ⟨np, hpt₀, hlast (.trans ?_ (.updProc ?_))⟩
      · exact hsz.trans ⟨rfl, rfl⟩
      · exact fun _ => rfl
    · rw [if_pos (by decide)]
      apply Sat.seq
      apply freeproc_spares.mono
      rintro _ k₃ ⟨h₃, hp₃, -, hnone⟩
      rw [hpt₂] at h₃ hnone
      refine Sat.ret (Or.inl ⟨some np, (k₁.proc np).pagetable, hspares₂.trans h₃, Or.inr (hnone hpt), ?_⟩)
      rintro _ ⟨⟩
      exact ⟨hpt₀, hp₃⟩

end Calls

/-! ## Runs -/

/-- The calls that move pages, made by the process they name; `uvmunmap` works on its table. -/
inductive PagingCall where
  | growproc (p : ProcId) (n : Int32)
  | vmfault (p : ProcId) (va : Nat)
  | kfork (p : ProcId)
  | clockEvict (p : ProcId)
  | uvmunmap (p : ProcId) (va npages : Nat) (doFree : Bool)

namespace PagingCall

section Runs

variable [SwapStore D]

def run : PagingCall → KM D Unit
  | growproc p n => do let _ ← Xv6.growproc p n
  | vmfault p va => do let _ ← Xv6.vmfault p ((← get).proc p).pagetable va
  | kfork p => do let _ ← Xv6.kfork p
  | clockEvict p => do let _ ← Xv6.clockEvict p
  | uvmunmap p va npages doFree => do Xv6.uvmunmap ((← get).proc p).pagetable va npages doFree

omit [SwapStore D] in
/-- A process in use makes the call. -/
def Allowed (k : Kernel D) : PagingCall → Prop
  | growproc p _ | vmfault p _ | kfork p | clockEvict p | uvmunmap p _ _ _ => (k.proc p).state ≠ .unused

/-- The number of pages in swap of the process `q` that a call from `k` releases. -/
def released (k : Kernel D) (q : ProcId) : PagingCall → Nat
  | growproc p n => if q = p then growprocReleased p n k else 0
  | uvmunmap p va npages _ => if q = p then (k.awayIn (k.proc p).pagetable va (va + npages * pgsize)).card else 0
  | vmfault _ _ | kfork _ | clockEvict _ => 0

/-- One call that returns. Beside the kernel, the state has for each process the number of its pages
that were released from swap since it was created. -/
def Step (s : Kernel D × (ProcId → Nat)) (c : PagingCall) (s' : Kernel D × (ProcId → Nat)) : Prop :=
  c.Allowed s.1 ∧ (∃ l, c.run s.1 = .ok ((), s'.1, l)) ∧
    s'.2 = fun q => if (s.1.proc q).state = .unused then 0 else s.2 q + c.released s.1 q

/-- None of the evictions of the call takes a page of a process whose `pages_swapped_out` is at its limit. -/
def Counted (s : Kernel D × (ProcId → Nat)) (c : PagingCall) : Prop :=
  ∀ k' l, c.run s.1 = .ok ((), k', l) → ∀ w ∈ l, w.Room

/-- What `uvmunmap` unmaps are user pages, which it frees. -/
def Tidy : PagingCall → Prop
  | uvmunmap _ va npages doFree => doFree = true ∧ va % pgsize = 0 ∧ va + npages * pgsize ≤ trapframe
  | _ => True

/-- The call is tidy, or leaves a consistent kernel nevertheless. -/
def Orderly (s : Kernel D × (ProcId → Nat)) (c : PagingCall) : Prop :=
  c.Tidy ∨ ∀ k' l, c.run s.1 = .ok ((), k', l) → Consistent k'

/-- A tidy call keeps the kernel consistent. -/
theorem run_consistent {c : PagingCall} (h : Consistent k) (hc : c.Allowed k) (ht : c.Tidy) :
    Sat (watch .plain) c.run (fun _ k' => Consistent k') k := by
  cases c with
  | growproc p n => exact KernelCall.run_spec h (c := .growproc p n) hc
  | vmfault p va => exact KernelCall.run_spec h (c := .vmfault p va) hc
  | kfork p => exact KernelCall.run_spec h (c := .kfork p) hc
  | clockEvict p => exact KernelCall.run_spec h (c := .clockEvict p) trivial
  | uvmunmap p va npages doFree =>
    obtain ⟨rfl, hal, hle⟩ := ht
    obtain ⟨g, hready⟩ := h.ready
    apply Sat.seq_get
    apply (uvmunmap_spec (watch_allowed id) hready ((h.spaces.each p).table (h.live p hc)) hal hle).mono
    rintro _ k' ⟨hready', hclear⟩
    exact h.calm hready' (hclear.calm (X := fun _ _ => False)) fun _ _ => False.elim

/-- An orderly call leads from a consistent kernel to a consistent one. -/
theorem Step.consistent {s s' : Kernel D × (ProcId → Nat)} {c : PagingCall} (hstep : c.Step s s')
    (h : Consistent s.1) (ho : c.Orderly s) : Consistent s'.1 := by
  obtain ⟨hallowed, ⟨l, hrun⟩, -⟩ := hstep
  rcases ho with ht | hkeeps
  · exact (sat_plain (run_consistent h hallowed ht)).2 _ _ _ hrun
  · exact hkeeps _ l hrun

end Runs

end PagingCall

/-- For each process, the pages that went out are those that came back, those in swap, and those
released. -/
def SwapsBalanced (s : Kernel D × (ProcId → Nat)) : Prop :=
  ∀ p, (s.1.proc p).pagetable ≠ 0 → (s.1.proc p).pagesSwappedOut.toInt =
    (s.1.proc p).pagesSwappedIn.toInt + (s.1.away (s.1.proc p).pagetable).card + s.2 p

section Balance

variable [SwapStore D]

/-- What a call does to the accounts of one process. -/
def Kernel.Audited (k k' : Kernel D) (q : ProcId) (m : Nat) : Prop :=
  (k'.proc q).pagetable ≠ 0 →
    ((k.proc q).pagetable = 0 ∧ k'.Accounts q (k'.proc q).pagetable 0) ∨
      ((k.proc q).pagetable ≠ 0 ∧ ∀ n, k.Accounts q (k.proc q).pagetable n →
        k'.Accounts q (k.proc q).pagetable (n + m))

omit [SwapStore D] in
/-- A call that released pages, seen by one process. -/
theorem Shifts.audited {m : Nat} (h : Shifts p m k k') (q : ProcId) :
    k.Audited k' q (if q = p then m else 0) := by
  intro hq
  rw [h.pagetable] at hq
  exact Or.inr ⟨hq, fun n => h.accounts q _ n⟩

omit [SwapStore D] in
/-- A fork that failed, seen by one process. -/
theorem FailedFork.audited (h : FailedFork k k') (hs : Spaces k') (q : ProcId) : k.Audited k' q 0 := by
  obtain ⟨x, pt, hspares, hgone, hx⟩ := h
  intro hq
  have hqx : some q ≠ x := fun hf => hq (hx q hf.symm).2
  have hpt := hspares.pagetable q hqx
  rw [hpt] at hq
  refine Or.inr ⟨hq, fun n hk => hspares.accounts q _ n hqx hq ?_ hk⟩
  rintro rfl
  have htable := (hs.each q).table (by rw [hpt]; exact hq)
  rw [hpt, hgone.resolve_left hq] at htable
  cases htable

/-- **One call**, as long as its evictions can be counted. -/
theorem PagingCall.run_audited (h : Consistent k) {c : PagingCall} (hc : c.Allowed k) :
    Sat tally c.run (fun _ k' => ∀ q, k.Audited k' q (c.released k q)) k := by
  cases c with
  | growproc p n =>
    apply Sat.seq
    exact (growproc_shifts p h hc n).mono fun _ _ h₁ => Sat.ret h₁.audited
  | vmfault p va =>
    apply Sat.seq_get
    apply Sat.seq
    apply (vmfault_moves tally_lax rfl).mono
    intro _ k₁ h₁
    have hshift : Shifts p 0 k k₁ := .of_moves (h₁.mono fun _ hm => hm.within)
    refine Sat.ret fun q => ?_
    have hq := hshift.audited q
    rwa [ite_self] at hq
  | kfork p =>
    apply Sat.seq
    apply ((kfork_spares h hc).and (lenient_of_plain (kfork_spec h hc))).mono
    rintro _ k₁ ⟨hfork, hk₁⟩
    refine Sat.ret fun q => ?_
    rcases hfork with hfail | ⟨np, hpt, hspares, hchild⟩
    · exact hfail.audited hk₁.spaces q
    · intro hq
      by_cases hqn : q = np
      · subst hqn
        exact Or.inl ⟨hpt, hchild⟩
      · have hqx : some q ≠ some np := fun hf => hqn (Option.some.inj hf)
        have hptq := hspares.pagetable q hqx
        rw [hptq] at hq
        refine Or.inr ⟨hq, fun n hk => hspares.accounts q _ n hqx hq ?_ hk⟩
        intro heq
        exact hqn (hk₁.spaces.inj q np (by rw [hptq]; exact hq) (hptq.trans heq))
  | clockEvict p =>
    apply Sat.seq
    apply (clockEvict_moves tally_lax p).mono
    rintro _ k₁ ⟨h₁, -⟩
    have hshift : Shifts p 0 k k₁ := .of_moves (h₁.mono fun _ hm => hm.within)
    refine Sat.ret fun q => ?_
    have hq := hshift.audited q
    rwa [ite_self] at hq
  | uvmunmap p va npages doFree =>
    apply Sat.seq_get
    exact (uvmunmap_releases tally_lax va npages doFree).mono fun _ _ h₁ => (Shifts.refl.release h₁).audited

/-- Between calls the accounts of a process are those of its counters. -/
theorem SwapsBalanced.step {s s' : Kernel D × (ProcId → Nat)} {c : PagingCall} (h : SwapsBalanced s)
    (hk : Consistent s.1) (hroom : c.Counted s) (hstep : c.Step s s') : SwapsBalanced s' := by
  obtain ⟨hallowed, ⟨l, hrun⟩, hrel⟩ := hstep
  have haudit := PagingCall.run_audited hk hallowed
  unfold Sat at haudit
  rw [hrun] at haudit
  obtain ⟨-, haudit⟩ := haudit.resolve_left fun ⟨w, hw, hf⟩ => hf (hroom _ _ hrun w hw)
  intro p hp
  rw [hrel]
  dsimp only
  rcases haudit p hp with ⟨h0, hnew⟩ | ⟨h0, hold⟩
  · have hunused : (s.1.proc p).state = .unused := by
      by_contra hf
      exact hk.live p hf h0
    rw [if_pos hunused]
    exact hnew.balance
  · have hused : (s.1.proc p).state ≠ .unused := fun hf => h0 ((hk.spaces.each p).vacant hf).1
    rw [if_neg hused]
    have hacc := hold (s.2 p) ⟨rfl, fun q hq => (hk.spaces.inj p q h0 hq.symm).symm, h p h0⟩
    have htable : (s'.1.proc p).pagetable = (s.1.proc p).pagetable := hacc.table
    rw [htable]
    exact hacc.balance

/-- **The swap counters of every process balance along every run** of `growproc`, `vmfault`, `kfork`,
`clock_evict` and `uvmunmap` from a consistent kernel in which no counter passes its limit; so no process has
more pages swapped in than out. The last call need not be orderly. -/
theorem swap_counters_balance {s₀ s : Kernel D × (ProcId → Nat)} {cs : List PagingCall}
    (hk : Consistent s₀.1) (h₀ : SwapsBalanced s₀)
    (hrun : Run (Guarded (fun s c s' => PagingCall.Step s c s') fun s c => c.Counted s ∧ c.Orderly s) s₀ cs s) :
    ∀ s', s' = s ∨ (∃ c, PagingCall.Counted s c ∧ c.Step s s') →
      SwapsBalanced s' ∧ ∀ p, (s'.1.proc p).pagetable ≠ 0 →
        (s'.1.proc p).pagesSwappedIn.toInt ≤ (s'.1.proc p).pagesSwappedOut.toInt := by
  have hboth : Consistent s.1 ∧ SwapsBalanced s :=
    hrun.invariant (I := fun s => Consistent s.1 ∧ SwapsBalanced s) ⟨hk, h₀⟩
      fun _ _ _ h hs => ⟨hs.2.consistent h.1 hs.1.2, h.2.step h.1 hs.1.1 hs.2⟩
  intro s' hs'
  have hbal : SwapsBalanced s' := by
    rcases hs' with rfl | ⟨c, hc, hstep⟩
    · exact hboth.2
    · exact hboth.2.step hboth.1 hc hstep
  refine ⟨hbal, fun p hp => ?_⟩
  have := hbal p hp
  omega

end Balance

/-! ### A page goes out and is released; a counter passes its limit -/

theorem SwapsBalanced.of_size_zero (h : Consistent k) (hsz : ∀ p, (k.proc p).sz = 0)
    (heq : ∀ p, (k.proc p).pagesSwappedOut = (k.proc p).pagesSwappedIn) : SwapsBalanced (k, fun _ => 0) := by
  intro p hp
  rw [h.away_eq_empty hp (hsz p), heq]
  simp

instance (w : Eviction D) : Decidable w.Room :=
  inferInstanceAs (Decidable (∀ _, _ → _))

/-- A step, found by running the call. -/
theorem PagingCall.exists_step [SwapStore D] {s : Kernel D × (ProcId → Nat)} {c : PagingCall}
    (hc : c.Allowed s.1) (hres : c.run.result s.1 = some ()) (hafter : c.run.after s.1 = k') :
    ∃ rel, c.Step s (k', rel) := by
  obtain ⟨l, hrun⟩ := run_of_result hres
  rw [hafter] at hrun
  exact ⟨_, hc, ⟨l, hrun⟩, rfl⟩

theorem PagingCall.counted_of_all [SwapStore D] {s : Kernel D × (ProcId → Nat)} {c : PagingCall}
    (hall : TraceM.eventsAll (fun w => decide w.Room) c.run s.1 = true) : c.Counted s := by
  intro k' l hrun w hw
  unfold TraceM.eventsAll at hall
  rw [hrun] at hall
  exact of_decide_eq_true (List.all_eq_true.mp hall w hw)

namespace Family

/-- The page in swap is unmapped. -/
@[irreducible] def trimmed : Kernel PageArray := (PagingCall.run (.uvmunmap 0 0 1 true)).after evicted

/-- The first process after as many pages came and went as an `int` can count. -/
@[irreducible] def worn : Kernel PageArray :=
  alone.updProc 0 fun q => { q with pagesSwappedIn := 2147483647, pagesSwappedOut := 2147483647 }

/-- It gets two pages. -/
@[irreducible] def wornGrown : Kernel PageArray := (PagingCall.run (.growproc 0 8192)).after worn

/-- One of them goes out to swap. -/
@[irreducible] def wornEvicted : Kernel PageArray := (PagingCall.run (.clockEvict 0)).after wornGrown

set_option maxRecDepth 2048 in
theorem trimmed_runs : ((∀ p, (alone.proc p).sz = 0) ∧
      ∀ p, (alone.proc p).pagesSwappedOut = (alone.proc p).pagesSwappedIn) ∧
    ((PagingCall.run (.growproc 0 8192)).result alone = some () ∧
      eventsAll (fun w => decide w.Room) (PagingCall.run (.growproc 0 8192)) alone = true) ∧
    ((grown.proc 0).state ≠ .unused ∧ (PagingCall.run (.clockEvict 0)).result grown = some () ∧
      eventsAll (fun w => decide w.Room) (PagingCall.run (.clockEvict 0)) grown = true) ∧
    ((PagingCall.run (.uvmunmap 0 0 1 true)).result evicted = some () ∧
      eventsAll (fun w => decide w.Room) (PagingCall.run (.uvmunmap 0 0 1 true)) evicted = true) ∧
    (trimmed.proc 0).pagesSwappedOut = 1 := by
  decide +kernel

set_option maxRecDepth 2048 in
theorem worn_runs : ((∀ p, (worn.proc p).sz = 0) ∧
      ∀ p, (worn.proc p).pagesSwappedOut = (worn.proc p).pagesSwappedIn) ∧
    ((worn.proc 0).state ≠ .unused ∧ (PagingCall.run (.growproc 0 8192)).result worn = some ()) ∧
    ((wornGrown.proc 0).state ≠ .unused ∧ (PagingCall.run (.clockEvict 0)).result wornGrown = some ()) ∧
    (wornEvicted.proc 0).pagetable ≠ 0 ∧ (wornEvicted.proc 0).pagesSwappedOut.toInt = -2147483648 ∧
    (wornEvicted.proc 0).pagesSwappedIn.toInt = 2147483647 := by
  decide +kernel

theorem worn_consistent : Consistent worn := by
  have hspace := alone_consistent.spaces.each 0
  unfold worn
  exact alone_consistent.updProc (fun _ => rfl) (fun _ => rfl) grown_runs.2.1
    ⟨hspace.size, hspace.table, hspace.above, hspace.special, fun hu => absurd hu grown_runs.2.1⟩

end Family

/-- The first process gets two pages, one of them goes out to swap, and is unmapped there. -/
theorem swap_counters_balance_family : ∃ rel : ProcId → Nat,
    Run (fun s c s' => PagingCall.Step s c s') (Family.alone, fun _ => 0)
      [.growproc 0 8192, .clockEvict 0, .uvmunmap 0 0 1 true] (Family.trimmed, rel) ∧
    (Family.trimmed.proc 0).pagesSwappedOut = 1 ∧ SwapsBalanced (Family.trimmed, rel) := by
  obtain ⟨⟨hsz, heq⟩, ⟨hgrow, hall₁⟩, ⟨hused, hevict, hall₂⟩, ⟨hunmap, hall₃⟩, hone⟩ := Family.trimmed_runs
  have hstart : SwapsBalanced (Family.alone, fun _ => 0) := .of_size_zero Family.alone_consistent hsz heq
  obtain ⟨rel₁, h₁⟩ := PagingCall.exists_step (s := (Family.alone, fun _ => 0)) (c := .growproc 0 8192)
    Family.grown_runs.2.1 hgrow (show _ = Family.grown by unfold Family.grown; rfl)
  obtain ⟨rel₂, h₂⟩ := PagingCall.exists_step (s := (Family.grown, rel₁)) (c := .clockEvict 0)
    hused hevict (show _ = Family.evicted by unfold Family.evicted; rfl)
  obtain ⟨rel₃, h₃⟩ := PagingCall.exists_step (s := (Family.evicted, rel₂)) (c := .uvmunmap 0 0 1 true)
    Family.lazyGrown_runs.2.1 hunmap (show _ = Family.trimmed by unfold Family.trimmed; rfl)
  have hcount₁ := PagingCall.counted_of_all (s := (Family.alone, fun _ => 0)) hall₁
  have hcount₂ := PagingCall.counted_of_all (s := (Family.grown, rel₁)) hall₂
  have hcount₃ := PagingCall.counted_of_all (s := (Family.evicted, rel₂)) hall₃
  have hrun : Run (Guarded (fun s c s' => PagingCall.Step s c s') fun s c => c.Counted s ∧ c.Orderly s)
      (Family.alone, fun _ => 0) [.growproc 0 8192, .clockEvict 0, .uvmunmap 0 0 1 true] (Family.trimmed, rel₃) :=
    ((Run.single ⟨⟨hcount₁, .inl trivial⟩, h₁⟩).snoc ⟨⟨hcount₂, .inl trivial⟩, h₂⟩).snoc
      ⟨⟨hcount₃, .inl ⟨rfl, rfl, by decide⟩⟩, h₃⟩
  exact ⟨rel₃, hrun.of_guarded, hone, (swap_counters_balance Family.alone_consistent hstart hrun _ (.inl rfl)).1⟩

/-- One more eviction, and `pages_swapped_out` is the least `int`. -/
theorem swap_counters_wrap : Consistent Family.worn ∧ SwapsBalanced (Family.worn, fun _ => 0) ∧
    ∃ rel : ProcId → Nat, Run (fun s c s' => PagingCall.Step s c s') (Family.worn, fun _ => 0)
      [.growproc 0 8192, .clockEvict 0] (Family.wornEvicted, rel) ∧
    (Family.wornEvicted.proc 0).pagetable ≠ 0 ∧
    (Family.wornEvicted.proc 0).pagesSwappedOut.toInt = -2147483648 ∧
    (Family.wornEvicted.proc 0).pagesSwappedIn.toInt = 2147483647 ∧
    ¬ SwapsBalanced (Family.wornEvicted, rel) := by
  obtain ⟨⟨hsz, heq⟩, ⟨hused, hgrow⟩, ⟨hused', hevict⟩, hpt, hout, hin⟩ := Family.worn_runs
  obtain ⟨rel₁, h₁⟩ := PagingCall.exists_step (s := (Family.worn, fun _ => 0)) (c := .growproc 0 8192)
    hused hgrow (show _ = Family.wornGrown by unfold Family.wornGrown; rfl)
  obtain ⟨rel₂, h₂⟩ := PagingCall.exists_step (s := (Family.wornGrown, rel₁)) (c := .clockEvict 0)
    hused' hevict (show _ = Family.wornEvicted by unfold Family.wornEvicted; rfl)
  refine ⟨Family.worn_consistent, .of_size_zero Family.worn_consistent hsz heq, rel₂,
    (Run.single h₁).snoc h₂, hpt, hout, hin, fun hbal => ?_⟩
  have := hbal 0 hpt
  simp only [hout, hin] at this
  omega

end Xv6
