import Xv6.Vm.Moves

/-!
# The moves of each call

What `clock_evict`, the allocator, `mappages` and `vmfault` do to the pages of any kernel state, as moves.
The watch decides which evictions count as fine: the moves name the process that lost a page and how
many of its pages had gone out before.
-/

namespace Xv6

open Function Kernel Option

variable {D : Type} {k k' k'' : Kernel D} {r pa va : Nat} {v : Vpn} {e e' : Pte}

open TraceM

/-! ## Evictions -/

/-- The moves of evictions that are fine. -/
inductive Move.IsOut (W : Watch Panic (Eviction D)) : Move → Prop
  | out {w : Eviction D} {p : ProcId} (hw : W.fine w) (hp : (w.before.frametable w.entry).proc = some p)
      (r : Nat) (v : Vpn) : IsOut W (.out p r v (w.before.proc p).pagesSwappedOut)

section Evict

variable [SwapStore D] {W : Watch Panic (Eviction D)} (hW : W.Lax) (me : ProcId)

/-- An eviction moves one page out. -/
theorem EvictResult.moves {me : ProcId} (h : EvictResult me k pa k') (hc : Charged W k k') :
    Moves (Move.IsOut W) k k' ∧ k.tables.SameShape k'.tables := by
  cases h with
  | failed h =>
    obtain ⟨T, hand, rfl, hT⟩ := h
    exact ⟨.of_still (.of_sameButA hT rfl), hT.shape⟩
  | @out k₁ vic s e d h hp hva he hV hs hlow hout =>
    obtain ⟨T, hand, rfl, hT⟩ := h
    refine ⟨?_, hT.shape.trans (.setEntry _ _ _)⟩
    have hclock : Moves (Move.IsOut W) k (k.setClock T hand) := .of_still (.of_sameButA hT rfl)
    refine hclock.trans ?_
    have hswaps : ((k.setClock T hand).evicted vic (k.proc vic.proc).pagetable s
        ⟨true, (k.proc vic.proc).pagetable, vic.va, SwapStore.raidMode k.disk⟩
        (SwapStore.noteWrite me d) e).swaps =
          update k.swaps vic.proc (k.proc vic.proc).countEvicted.swaps :=
      swaps_updProc vic.proc Proc.countEvicted
    obtain ⟨w, hfine, hbefore, hw⟩ := hc vic.proc (by
      have hself := congrArg Swaps.swappedOut (congrFun hswaps vic.proc)
      rw [update_self] at hself
      intro heq
      simpa [Proc.countEvicted, Proc.swaps] using hself.symm.trans heq)
    have hlabel := Move.IsOut.out (W := W) hfine (by rw [hbefore]; exact hw)
      (k.proc vic.proc).pagetable (vpn vic.va)
    rw [hbefore] at hlabel
    refine .of_move ?_ hlabel
    exact .move (m := .out _ _ _ _) (k := k.setClock T hand) ⟨rfl, rfl⟩ he (.out s hV) rfl hswaps

include hW

theorem clockEvict_moves : Sat W (clockEvict me)
    (fun _ k' => Moves (Move.IsOut W) k k' ∧ k.tables.SameShape k'.tables) k :=
  (clockEvict_result hW me).mono fun _ _ h => h.2.1.moves h.2.2

theorem kalloc_moves : Sat W (kalloc me)
    (fun _ k' => Moves (Move.IsOut W) k k' ∧ k.tables.SameShape k'.tables) k := by
  unfold kalloc
  apply Sat.seq_get
  split
  · exact clockEvict_moves hW me
  · apply Sat.seq_run rfl
    apply Sat.seq_update
    exact Sat.ret ⟨.of_still (.of_tables rfl rfl), .refl⟩

theorem getFrame_moves : Sat W (getFrame me) (fun _ k' => Moves (Move.IsOut W) k k') k := by
  unfold getFrame
  cases hlock : k.framelock with
  | true => exact Sat.of_error (bind_of_error (acquireFramelock_panic hlock)) (hW.allowed _)
  | false =>
    apply Sat.seq_run (acquireFramelock_run hlock)
    apply Sat.seq_get
    apply Sat.seq_run (releaseFramelock_run rfl)
    have hstill : Moves (Move.IsOut W) k ((k.setLock true).setLock false) :=
      .of_still (.of_tables rfl rfl)
    split
    · apply Sat.seq
      apply (kalloc_moves hW me).mono
      rintro pa k₁ ⟨hmoves, -⟩
      split
      · exact (clockEvict_moves hW me).mono fun _ _ h => (hstill.trans hmoves).trans h.1
      · exact Sat.ret (hstill.trans hmoves)
    · exact (clockEvict_moves hW me).mono fun _ _ h => hstill.trans h.1

end Evict

/-! ## Table pages -/

theorem Tables.mapTable_of_none {T : Tables} (h : T r = none) (f : PageTable → PageTable) :
    T.mapTable r f = T := by
  unfold Tables.mapTable
  rw [h, map_none, ← h, update_eq_self]

theorem Still.linkMid {i₂ : Fin 512} (h : k.tables.midPage r i₂ = none) : Still k (k.linkMid r i₂ pa) := by
  cases ht : k.tables r with
  | none => exact .of_tables (Tables.mapTable_of_none ht _) rfl
  | some t => exact .of_entries (fun r' => Tables.entry_linkMid ht r' i₂ pa h) rfl

theorem Still.linkLeaf {i₂ i₁ : Fin 512} (h : k.tables.leafPage r i₂ i₁ = none) :
    Still k (k.linkLeaf r i₂ i₁ pa) := by
  cases hmid : k.tables.midPage r i₂ with
  | none =>
    refine .of_tables ?_ rfl
    cases ht : k.tables r with
    | none => exact Tables.mapTable_of_none ht _
    | some t =>
      rw [Tables.midPage, ht, bind_some, PageTable.midPage, map_eq_none_iff] at hmid
      show k.tables.mapTable r _ = k.tables
      unfold Tables.mapTable PageTable.linkLeaf PageTable.mapMid
      rw [ht, map_some, hmid, map_none, ← hmid, update_eq_self, ← ht,
        update_eq_self]
  | some m =>
    obtain ⟨t, ht⟩ : ∃ t, k.tables r = some t := by
      cases ht : k.tables r with
      | none => simp [Tables.midPage, ht] at hmid
      | some t => exact ⟨t, rfl⟩
    have hnone : ∀ w : Vpn, w.i₂ = i₂ → w.i₁ = i₁ → k.tables.entry r w = none := by
      intro w h₂ h₁
      rw [← not_isSome_iff_eq_none, Tables.entry_isSome_iff, h₂, h₁, h]
      simp
    have hentry := fun r' w => Tables.entry_linkLeaf ht r' i₂ i₁ pa (by rw [hmid]; rfl) w
    refine ⟨?_, ?_, rfl⟩
    · intro r' w e he _
      refine ⟨e, ?_, rfl⟩
      rw [linkLeaf_tables, hentry, if_neg]
      · exact he
      · rintro ⟨rfl, h₂, h₁⟩
        rw [hnone w h₂ h₁] at he
        cases he
    · intro r' w hh e he
      rw [linkLeaf_tables, hentry] at he
      split at he
      · cases he
        exact not_present_zero
      · exact hh e he

section Map

variable [SwapStore D] {W : Watch Panic (Eviction D)} (hW : W.Lax) (me : ProcId)

include hW

theorem walkMid_moves (r : Nat) (v : Vpn) :
    Sat W (walkMid me r v) (fun _ k' => Moves (Move.IsOut W) k k') k := by
  unfold walkMid
  apply Sat.seq_get
  split
  · exact Sat.ret .refl
  · next hmid =>
      apply Sat.seq
      apply (kalloc_moves hW me).mono
      rintro page k₁ ⟨hmoves, hshape⟩
      split
      · exact Sat.ret hmoves
      · apply Sat.seq_update
        refine Sat.ret (hmoves.trans (.of_still (.linkMid ?_)))
        rw [hshape.mid]
        simpa using hmid

theorem walkLeaf_moves (r : Nat) (v : Vpn) :
    Sat W (walkLeaf me r v) (fun _ k' => Moves (Move.IsOut W) k k') k := by
  unfold walkLeaf
  apply Sat.seq_get
  split
  · exact Sat.ret .refl
  · next hleaf =>
      apply Sat.seq
      apply (kalloc_moves hW me).mono
      rintro page k₁ ⟨hmoves, hshape⟩
      split
      · exact Sat.ret hmoves
      · apply Sat.seq_update
        refine Sat.ret (hmoves.trans (.of_still (.linkLeaf ?_)))
        rw [hshape.leaf]
        simpa using hleaf

theorem walkAlloc_moves (r va : Nat) : Sat W (walkAlloc me r va) (fun res k' =>
    Moves (Move.IsOut W) k k' ∧ ∀ ptr, res = some ptr → ptr = ⟨r, vpn va⟩) k := by
  unfold walkAlloc
  split
  · exact Sat.panic (hW.allowed _)
  · apply Sat.seq
    apply (walkMid_moves hW me r (vpn va)).mono
    intro ok k₁ hmoves
    split
    · apply Sat.seq
      apply (walkLeaf_moves hW me r (vpn va)).mono
      intro ok' k₂ hmoves₂
      split
      · refine Sat.ret ⟨hmoves.trans hmoves₂, ?_⟩
        rintro ptr ⟨⟩
        rfl
      · exact Sat.ret ⟨hmoves.trans hmoves₂, fun ptr hf => by cases hf⟩
    · exact Sat.ret ⟨hmoves, fun ptr hf => by cases hf⟩

omit [SwapStore D] hW in
/-- Dereferencing an entry that may not be there. -/
theorem deref_sat (hW : W.Lax) {α : Type} {ptr : PtePtr} {f : Pte → KM D α} {Q : α → Kernel D → Prop}
    (h : ∀ e, k.tables.entry ptr.table ptr.page = some e → Sat W (f e) Q k) : Sat W (deref ptr >>= f) Q k := by
  cases he : k.tables.entry ptr.table ptr.page with
  | none =>
    refine Sat.of_error (e := .kerneltrap) (bind_of_error ?_) (hW.allowed _)
    unfold deref
    rw [get_bind_apply, he]
    rfl
  | some e => exact Sat.seq_run (deref_run he) (h e he)

/-- Mapping one page fills it; it must not be there before, in memory or in swap. -/
theorem mappages_moves (r va pa : Nat) (perm : Pte) (hh : k.tables.Hollow r (vpn va)) :
    Sat W (mappages me r va pgsize pa perm) (fun _ k' =>
      Moves (fun m => m.IsOut W ∨ m = .fill r (vpn va)) k k') k := by
  unfold mappages
  by_cases hal : va % pgsize = 0
  · rw [if_neg (not_not.mpr hal), if_neg (by decide), if_neg (by decide)]
    unfold mappagesLoop
    apply Sat.seq
    apply (walkAlloc_moves hW me r va).mono
    rintro res k₁ ⟨hmoves, hptr⟩
    have hmoves₁ : Moves (fun m => m.IsOut W ∨ m = .fill r (vpn va)) k k₁ := hmoves.mono fun _ => Or.inl
    cases res with
    | none => exact Sat.ret hmoves₁
    | some ptr =>
      obtain rfl := hptr ptr rfl
      apply deref_sat hW
      intro e he
      have hhollow := hmoves.hollow (fun hf => by cases hf) hh e he
      rw [if_neg fun hV => hhollow (Or.inl hV)]
      apply Sat.seq_run (assign_run _ _)
      refine Sat.ret (hmoves₁.trans (.of_move (m := .fill r (vpn va)) ?_ (Or.inr rfl)))
      exact .move trivial he (.fill hhollow (mapEntry_valid _ _)) rfl rfl
  · rw [if_pos hal]
    exact Sat.panic (hW.allowed _)

end Map

/-! ## Calls that move nothing -/

/-- Page tables and swap counters are untouched. -/
structure Unmoved (k k' : Kernel D) : Prop where
  tables : k'.tables = k.tables
  swaps : k'.swaps = k.swaps

theorem Unmoved.trans (h : Unmoved k k') (h' : Unmoved k' k'') : Unmoved k k'' :=
  ⟨h'.tables.trans h.tables, h'.swaps.trans h.swaps⟩

theorem Unmoved.moves {S : Move → Prop} (h : Unmoved k k') : Moves S k k' :=
  .of_still (.of_tables h.tables h.swaps)

theorem Unmoved.updProc {p : ProcId} {f : Proc → Proc} (hf : ∀ q : Proc, (f q).swaps = q.swaps) :
    Unmoved k (k.updProc p f) := ⟨rfl, swaps_updProc_of_eq hf⟩

theorem Unmoved.registerFrame (i : Fin maxFrames) (pa : Nat) (p : ProcId) (va : Nat) :
    Unmoved k (k.registerFrame i pa p va) :=
  ⟨rfl, swaps_updProc_of_eq (k := k) (p := p) (f := Proc.moreResident) fun _ => rfl⟩

theorem Unmoved.dropFrame (pa : Nat) : Unmoved k (k.dropFrame pa) := by
  unfold Kernel.dropFrame
  split
  · exact ⟨rfl, rfl⟩
  · unfold Kernel.clearFrame
    split
    · exact ⟨rfl, rfl⟩
    · next p _ => exact ⟨rfl, swaps_updProc_of_eq (k := k) (p := p) (f := Proc.lessResident) fun _ => rfl⟩

section Calls

variable {W : Watch Panic (Eviction D)} (hW : W.Lax)

include hW

theorem frametablefree_unmoved (pa : Nat) : Sat W (frametablefree pa) (fun _ k' => Unmoved k k') k := by
  cases hlock : k.framelock with
  | true =>
    unfold frametablefree
    exact Sat.of_error (bind_of_error (acquireFramelock_panic hlock)) (hW.allowed _)
  | false => exact Sat.of_ok (frametablefree_run pa hlock) (.dropFrame pa)

theorem kfree_unmoved (pa : Nat) : Sat W (kfree pa) (fun _ k' => Unmoved k k') k := by
  unfold kfree
  apply Sat.seq_get
  by_cases hbad : pa % pgsize ≠ 0 ∨ pa < k.image.kend ∨ phystop ≤ pa
  · rw [if_pos hbad]
    exact Sat.panic (hW.allowed _)
  · rw [if_neg hbad]
    apply Sat.seq
    apply (frametablefree_unmoved hW pa).mono
    intro _ k₁ h₁
    apply Sat.seq_update
    exact Sat.update (h₁.trans ⟨rfl, rfl⟩)

variable [SwapStore D]

omit hW in
theorem swapFree_unmoved (idx : Int) : Sat W (swapFree idx) (fun _ k' => Unmoved k k') k := by
  unfold swapFree
  split
  · exact Sat.ret ⟨rfl, rfl⟩
  · exact Sat.update ⟨rfl, rfl⟩

theorem swapin_unmoved (me : ProcId) (pa : Nat) (idx : Int) :
    Sat W (swapin me pa idx) (fun _ k' => Unmoved k k') k := by
  unfold swapin
  split
  · exact Sat.panic (hW.allowed _)
  · next s _ =>
      apply Sat.seq_get
      by_cases hused : (k.swaptable s).used = false
      · rw [if_pos hused]
        exact Sat.panic (hW.allowed _)
      · rw [if_neg hused]
        cases hin : SwapStore.swapInPage (k.caller me) (k.mem pa) s k.disk with
        | error err => exact Sat.of_error (bind_of_error (onDisk_panic hin)) (hW.allowed _)
        | ok res =>
          obtain ⟨page, d⟩ := res
          apply Sat.seq_run (onDisk_run hin)
          apply Sat.seq_update
          apply Sat.seq_update
          exact (swapFree_unmoved idx).mono fun _ _ h => ⟨h.tables, h.swaps⟩

omit hW in
/-- The way through `clock_evict` is closed here: the lock is held. -/
theorem frametableAlloc_unmoved (hW : W.Lax) (me : ProcId) (pa : Nat) (p : ProcId) (va : Nat) :
    Sat W (frametableAlloc me pa p va) (fun _ k' => Unmoved k k') k := by
  unfold frametableAlloc frametableAllocFor frametableAllocBody
  cases hlock : k.framelock with
  | true => exact Sat.of_error (bind_of_error (acquireFramelock_panic hlock)) (hW.allowed _)
  | false =>
    apply Sat.seq_run (acquireFramelock_run hlock)
    split
    · exact Sat.of_ok (releaseFramelock_run rfl) ⟨rfl, rfl⟩
    · apply Sat.seq_get
      split
      · next i _ =>
          apply Sat.seq_update
          have h := Unmoved.registerFrame (k := k.setLock true) i pa p va
          exact Sat.of_ok (releaseFramelock_run rfl) ⟨h.tables, h.swaps⟩
      · apply Sat.seq
        apply (clockEvict_result hW me).mono
        rintro _ _ ⟨hf, -⟩
        cases hf

end Calls

/-! ## Page faults -/

section Fault

variable [SwapStore D] {W : Watch Panic (Eviction D)} (hW : W.Lax) {me : ProcId}

/-- The moves of a fault at page `v` of the table `r` of the process `p`. -/
def Move.IsFault (W : Watch Panic (Eviction D)) (p : ProcId) (r : Nat) (v : Vpn) (m : Move) : Prop :=
  m.IsOut W ∨ m = .fill r v ∨ m = .back p r v

include hW

/-- A fault on a page in swap moves it back. -/
theorem vmfaultSwapped_moves (hroot : (k.proc me).pagetable = r) (he : k.tables.entry r v = some e)
    (ha : Away e) : Sat W (vmfaultSwapped me ⟨r, v⟩ va) (fun _ k' => Moves (Move.IsFault W me r v) k k') k := by
  unfold vmfaultSwapped
  apply Sat.seq_run (deref_run he)
  apply Sat.seq
  apply (getFrame_moves hW me).mono
  intro pa k₁ hmoves
  obtain ⟨e₁, he₁, ha₁⟩ := hmoves.away (fun _ hf => by cases hf) (fun hf => by cases hf) he ha
  have hroot₁ := (hmoves.pagetable me).trans hroot
  by_cases h0 : pa = 0
  · rw [if_pos h0]
    exact Sat.panic (hW.allowed _)
  · rw [if_neg h0]
    apply Sat.seq
    apply (swapin_unmoved hW me pa _).mono
    intro _ k₂ h₂
    rw [← h₂.tables] at he₁
    have hroot₂ : (k₂.swaps me).pagetable = r := by
      rw [h₂.swaps]
      exact hroot₁
    apply Sat.seq_run (deref_run he₁)
    apply Sat.seq_run (assign_run _ _)
    apply Sat.seq_update
    apply Sat.seq
    apply (frametableAlloc_unmoved hW me pa me va).mono
    intro _ k₃ h₃
    apply Sat.ret
    have hback : MoveStep k₂ (some (.back me r v))
        ((k₂.setEntry r v (swapInEntry pa e₁)).updProc me Proc.countRestored) :=
      .move hroot₂ he₁ (.back pa ha₁) rfl (swaps_updProc me Proc.countRestored)
    have hmoves₁ : Moves (Move.IsFault W me r v) k k₁ := hmoves.mono fun _ => Or.inl
    exact ((hmoves₁.trans h₂.moves).trans (.of_move hback (Or.inr (Or.inr rfl)))).trans h₃.moves

/-- A fault on a page never touched fills it. -/
theorem vmfaultLazy_moves (hroot : (k.proc me).pagetable = r) (hh : k.tables.Hollow r (vpn va)) :
    Sat W (vmfaultLazy me va) (fun _ k' => Moves (Move.IsFault W me r (vpn va)) k k') k := by
  unfold vmfaultLazy
  apply Sat.seq
  apply (getFrame_moves hW me).mono
  intro mem k₁ hmoves
  have hmoves₁ : Moves (Move.IsFault W me r (vpn va)) k k₁ := hmoves.mono fun _ => Or.inl
  split
  · exact Sat.ret hmoves₁
  · apply Sat.seq_update
    apply Sat.seq_get
    have hroot₁ : ((k₁.setMem mem (junk 0)).proc me).pagetable = r := (hmoves.pagetable me).trans hroot
    rw [hroot₁]
    have hset : Unmoved k₁ (k₁.setMem mem (junk 0)) := ⟨rfl, rfl⟩
    apply Sat.seq
    apply (mappages_moves (k := k₁.setMem mem (junk 0)) hW me r va mem _
      (hmoves.hollow (fun hf => by cases hf) hh)).mono
    intro res k₂ hmoves₂
    have hmoves₃ : Moves (Move.IsFault W me r (vpn va)) k k₂ :=
      (hmoves₁.trans hset.moves).trans (hmoves₂.mono fun m hm => hm.imp id Or.inl)
    split
    · apply Sat.seq
      apply (kfree_unmoved hW mem).mono
      exact fun _ k₃ h₃ => Sat.ret (hmoves₃.trans h₃.moves)
    · apply Sat.seq
      apply (frametableAlloc_unmoved hW me mem me va).mono
      exact fun _ k₃ h₃ => Sat.ret (hmoves₃.trans h₃.moves)

/-- A fault moves back or fills its own page only. -/
theorem vmfault_moves (hroot : (k.proc me).pagetable = r) :
    Sat W (vmfault me r va) (fun _ k' => Moves (Move.IsFault W me r (vpn va)) k k') k := by
  unfold vmfault
  apply Sat.seq_get
  split
  · exact Sat.ret .refl
  · apply walk_sat (.inr (hW.allowed _)) (.inr (hW.allowed _))
    intro t hva ht
    have hmax := lt_of_le_of_lt (pgrounddown_le va) hva
    apply Sat.seq_run (ismapped_run hmax ht)
    rw [vpn_pgrounddown]
    have hcount : Unmoved k (k.updProc me Proc.countFault) := .updProc fun _ => rfl
    have hroot₁ : ((k.updProc me Proc.countFault).proc me).pagetable = r :=
      (hcount.moves (S := fun _ => False)).pagetable me ▸ hroot
    have hlazy : k.tables.Hollow r (vpn va) → Sat W (vmfaultLazy me (pgrounddown va))
        (fun _ k' => Moves (Move.IsFault W me r (vpn va)) k k') (k.updProc me Proc.countFault) := by
      intro hh
      rw [← vpn_pgrounddown va] at hh ⊢
      exact (vmfaultLazy_moves hW hroot₁ hh).mono fun _ _ h => hcount.moves.trans h
    cases he : k.tables.entry r (vpn va) with
    | none =>
      apply Sat.seq_update
      exact hlazy fun e hf => by rw [he] at hf; cases hf
    | some e =>
      cases hV : e.getLsbD pteV with
      | true =>
        simp only [any_some, hV]
        exact Sat.ret .refl
      | false =>
        simp only [any_some, hV]
        apply Sat.seq_update
        refine Sat.seq_run (deref_run (k := k.updProc me Proc.countFault) he) ?_
        split
        · next hS =>
            refine (vmfaultSwapped_moves hW hroot₁ he ⟨hV, hS⟩).mono ?_
            exact fun _ _ h => hcount.moves.trans h
        · next hS =>
            apply hlazy
            intro e' he' hp
            rw [he] at he'
            cases he'
            rcases hp with hp | hp
            · rw [hV] at hp
              cases hp
            · exact hS hp

end Fault

/-! ## Unmapping and copying -/

/-- Moves that clear and release pages of tables in `R` only. -/
def Move.Within (W : Watch Panic (Eviction D)) (R : Nat → Prop) : Move → Prop
  | .out p r v n => Move.IsOut W (.out p r v n)
  | .back _ _ _ | .fill _ _ => True
  | .clear r _ | .release r _ => R r

theorem Move.IsOut.within {W : Watch Panic (Eviction D)} {R : Nat → Prop} {m : Move} (h : m.IsOut W) :
    m.Within W R := by
  cases h with
  | out hw hp r v => exact .out hw hp r v

theorem Move.IsFault.within {W : Watch Panic (Eviction D)} {R : Nat → Prop} {p : ProcId} {m : Move}
    (h : m.IsFault W p r v) : m.Within W R := by
  rcases h with h | rfl | rfl
  · exact h.within
  · trivial
  · trivial

section Unmap

variable [SwapStore D] {W : Watch Panic (Eviction D)} (hW : W.Lax)

include hW

theorem uvmunmapPage_moves (doFree : Bool) :
    Sat W (uvmunmapPage ⟨r, v⟩ doFree) (fun _ k' => Moves (Move.Within W (· = r)) k k') k := by
  unfold uvmunmapPage
  apply deref_sat hW
  intro e he
  have hclear : ∀ {k₁ : Kernel D}, Unmoved k k₁ → ¬ Away e → Moves (Move.Within W (· = r)) k
      (k₁.setEntry r v 0) := by
    intro k₁ h₁ ha
    refine h₁.moves.trans (.of_move (m := .clear r v) ?_ rfl)
    exact .move trivial (by rw [h₁.tables]; exact he) (.clear ha) rfl rfl
  split
  · next ha =>
      apply Sat.seq
      apply (swapFree_unmoved _).mono
      intro _ k₁ h₁
      refine Sat.of_ok (assign_run _ _) (h₁.moves.trans (.of_move (m := .release r v) ?_ rfl))
      exact .move trivial (by rw [h₁.tables]; exact he) (.release ha) rfl rfl
  · next ha =>
      split
      · apply Sat.seq
        apply (frametablefree_unmoved hW _).mono
        intro _ k₁ h₁
        apply Sat.seq
        apply (kfree_unmoved hW _).mono
        intro _ k₂ h₂
        exact Sat.of_ok (assign_run _ _) (hclear (h₁.trans h₂) ha)
      · exact Sat.of_ok (assign_run _ _) (hclear ⟨rfl, rfl⟩ ha)

theorem uvmunmapLoop_moves (doFree : Bool) (n : Nat) : ∀ {k : Kernel D} {a : Nat},
    Sat W (uvmunmapLoop r doFree n a) (fun _ k' => Moves (Move.Within W (· = r)) k k') k := by
  induction n with
  | zero => exact Sat.ret .refl
  | succ n ih =>
    intro k a
    unfold uvmunmapLoop uvmunmapTurn
    apply Sat.seq
    apply walk_sat (.inr (hW.allowed _)) (.inr (hW.allowed _))
    intro t _ _
    cases k.tables.entry r (vpn a) with
    | none => exact Sat.ret ih
    | some e =>
      apply (uvmunmapPage_moves hW doFree).mono
      exact fun _ k₁ h₁ => ih.mono fun _ _ h₂ => h₁.trans h₂

/-- `uvmunmap` clears and releases pages of its table only. -/
theorem uvmunmap_moves (a n : Nat) (doFree : Bool) :
    Sat W (uvmunmap r a n doFree) (fun _ k' => Moves (Move.Within W (· = r)) k k') k := by
  unfold uvmunmap
  by_cases hal : a % pgsize = 0
  · rw [if_neg (not_not.mpr hal)]
    exact uvmunmapLoop_moves hW doFree n
  · rw [if_pos hal]
    exact Sat.panic (hW.allowed _)

end Unmap

section Copy

variable [SwapStore D] {W : Watch Panic (Eviction D)} (hW : W.Lax) {me child : ProcId} {old new i : Nat}

/-- The moves of a copy of the pages of `old` from the address `lo` on. -/
def Move.IsCopy (W : Watch Panic (Eviction D)) (me : ProcId) (old new lo : Nat) (m : Move) : Prop :=
  (∃ v, m.IsFault W me old v) ∨ ∃ v : Vpn, lo ≤ v.addr ∧ m = .fill new v

omit [SwapStore D] in
theorem Move.IsCopy.within {R : Nat → Prop} {lo : Nat} {m : Move} (h : m.IsCopy W me old new lo) :
    m.Within W R := by
  rcases h with ⟨v, h⟩ | ⟨v, -, rfl⟩
  · exact h.within
  · trivial

include hW

theorem uvmcopyFetch_moves (hroot : (k.proc me).pagetable = old) :
    Sat W (uvmcopyFetch me old i e) (fun _ k' => Moves (Move.IsFault W me old (vpn i)) k k') k := by
  unfold uvmcopyFetch
  split
  · exact Sat.ret .refl
  · apply Sat.seq
    apply (vmfault_moves hW hroot).mono
    exact fun _ _ h => Sat.ret h

/-- A frame filled with `page` and mapped at the page `va` of `r`, as `uvmalloc` and `uvmcopy` do it. -/
theorem getFrame_fill_moves {α : Type} {page : Kernel D → Page} {perm : Pte} (p : ProcId) (nomem fail succ : α)
    (hh : k.tables.Hollow r (vpn va)) :
    Sat W (do
      let mem ← getFrame me
      if mem = 0 then return nomem
      modify fun k => k.setMem mem (page k)
      if (← mappages me r va pgsize mem perm) ≠ 0 then
        kfree mem
        return fail
      frametableAlloc me mem p va
      return succ) (fun _ k' => Moves (fun m => m.IsOut W ∨ m = .fill r (vpn va)) k k') k := by
  apply Sat.seq
  apply (getFrame_moves hW me).mono
  intro mem k₁ hmoves
  have hmoves₁ : Moves (fun m => m.IsOut W ∨ m = .fill r (vpn va)) k k₁ := hmoves.mono fun _ => Or.inl
  split
  · exact Sat.ret hmoves₁
  · apply Sat.seq_update
    have hset : Unmoved k₁ (k₁.setMem mem (page k₁)) := ⟨rfl, rfl⟩
    apply Sat.seq
    apply (mappages_moves (k := k₁.setMem mem (page k₁)) hW me r va mem _
      (hmoves.hollow (fun hf => by cases hf) hh)).mono
    intro res k₂ hmoves₂
    have hmoves₃ := (hmoves₁.trans hset.moves).trans hmoves₂
    split
    · apply Sat.seq
      apply (kfree_unmoved hW mem).mono
      exact fun _ k₃ h₃ => Sat.ret (hmoves₃.trans h₃.moves)
    · apply Sat.seq
      apply (frametableAlloc_unmoved hW me mem p va).mono
      exact fun _ k₃ h₃ => Sat.ret (hmoves₃.trans h₃.moves)

theorem uvmcopyPage_moves {ptr : PtePtr} (hh : k.tables.Hollow new (vpn i)) :
    Sat W (uvmcopyPage me ptr new i child) (fun _ k' =>
      Moves (fun m => m.IsOut W ∨ m = .fill new (vpn i)) k k') k := by
  unfold uvmcopyPage
  apply deref_sat hW
  intro e _
  exact getFrame_fill_moves hW child _ _ _ hh

/-- A turn of `uvmcopy` faults in the parent and fills in the child. -/
theorem uvmcopyTurn_moves (hne : new ≠ old) (hroot : (k.proc me).pagetable = old)
    (hh : k.tables.Hollow new (vpn i)) : Sat W (uvmcopyTurn me old new i child) (fun _ k' =>
      Moves (fun m => m.IsFault W me old (vpn i) ∨ m = .fill new (vpn i)) k k') k := by
  unfold uvmcopyTurn
  apply walk_sat (.inr (hW.allowed _)) (.inr (hW.allowed _))
  intro t _ _
  cases he : k.tables.entry old (vpn i) with
  | none => exact Sat.ret .refl
  | some e =>
    apply Sat.seq_run (deref_run (k := k) (p := ⟨old, vpn i⟩) he)
    split
    · exact Sat.ret .refl
    · apply Sat.seq
      apply (uvmcopyFetch_moves hW hroot).mono
      intro present k₁ hfetch
      have hfetched := hfetch.mono fun m hm => (Or.inl hm : _ ∨ m = .fill new (vpn i))
      split
      · have hh₁ : k₁.tables.Hollow new (vpn i) := by
          refine hfetch.hollow ?_ hh
          rintro (hf | hf | hf)
          · cases hf
          · cases hf
            exact hne rfl
          · cases hf
        apply (uvmcopyPage_moves hW hh₁).mono
        exact fun _ _ hpage => hfetched.trans (hpage.mono fun m hm => hm.imp Or.inl id)
      · exact Sat.ret hfetched

/-- A copy that succeeds takes no page away, and fills pages of `new` from `i` on only. -/
theorem uvmcopyLoop_moves (hne : new ≠ old) (n : Nat) : ∀ {k : Kernel D} {i : Nat}, (k.proc me).pagetable = old →
    (∀ v, ¬ Special v → i ≤ v.addr → k.tables.Hollow new v) → i % pgsize = 0 →
    i + n * pgsize ≤ trapframe →
    Sat W (uvmcopyLoop me old new child n i) (fun res k' => Moves (Move.Within W (· = new)) k k' ∧
      (res = 0 → Moves (Move.IsCopy W me old new i) k k')) k := by
  induction n with
  | zero =>
    intro k i _ _ _ _
    exact Sat.ret ⟨.refl, fun _ => .refl⟩
  | succ n ih =>
    intro k i hroot hh hal hlim
    have hlt : i < trapframe := by
      unfold pgsize at hlim
      omega
    have haddr := addr_vpn hal (lt_trans hlt (by decide))
    rw [uvmcopyLoop_succ]
    apply Sat.seq
    apply (uvmcopyTurn_moves hW hne hroot (hh _ (not_special_of_lt hal hlt) haddr.ge)).mono
    intro ok k₁ hturn
    have hcopy : Moves (Move.IsCopy W me old new i) k k₁ := by
      refine hturn.mono fun m hm => ?_
      rcases hm with hm | rfl
      · exact Or.inl ⟨_, hm⟩
      · exact Or.inr ⟨vpn i, haddr.ge, rfl⟩
    have hwithin₁ : Moves (Move.Within W (· = new)) k k₁ := hcopy.mono fun _ h => h.within
    split
    · have hh₁ : ∀ v, ¬ Special v → i + pgsize ≤ v.addr → k₁.tables.Hollow new v := by
        intro v hv hi
        have hvi : v ≠ vpn i := by
          rintro rfl
          rw [haddr] at hi
          unfold pgsize at hi
          omega
        refine hturn.hollow ?_ (hh v hv (by omega))
        rintro ((hf | hf | hf) | hf)
        · cases hf
        · cases hf
          exact hvi rfl
        · cases hf
        · cases hf
          exact hvi rfl
      apply (ih ((hturn.pagetable me).trans hroot) hh₁ (by unfold pgsize at *; omega)
        (by unfold pgsize at *; omega)).mono
      rintro res k₂ ⟨hwithin, hok⟩
      refine ⟨hwithin₁.trans hwithin, fun h0 => hcopy.trans ((hok h0).mono ?_)⟩
      rintro m (hm | ⟨v, hv, rfl⟩)
      · exact Or.inl hm
      · exact Or.inr ⟨v, by omega, rfl⟩
    · unfold uvmcopyErr
      apply Sat.seq
      apply (uvmunmap_moves hW 0 (i / pgsize) true).mono
      exact fun _ k₂ h₂ => Sat.ret ⟨hwithin₁.trans h₂, fun hf => by cases hf⟩

end Copy

end Xv6
