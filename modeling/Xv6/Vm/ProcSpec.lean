import Xv6.Vm.Spaces

/-!
# Creating and releasing address spaces

`proc_pagetable` builds a table with the trampoline and the trapframe page in it, or leaves nothing
behind. `freeproc` gives up the trapframe first, so for a while the table of the process maps a page on
the free list; the context names that table until it is gone.
-/

namespace Xv6

open Function Kernel

variable {D : Type} [SwapStore D] {k k' k₁ : Kernel D} {c : Ctx} {g g₁ : Ledger} {r pt a pa : Nat}
  {v : Vpn} {e : Pte} {perm : Pte} {me p : ProcId}

open TraceM

/-! ## `proc_pagetable` -/

/-- **`uvmcreate`** returns an empty table, or 0. -/
theorem uvmcreate_spec (h : Ready c g k) :
    Sat (watch c) (uvmcreate me) (fun pt k' => (∃ g', Ready c g' k') ∧
      ((pt = 0 ∧ Calm none (fun _ _ => False) k k') ∨
        (pt ≠ 0 ∧ k.tables pt = none ∧ Apart pt k k' ∧ k'.tables pt = some .empty))) k := by
  unfold uvmcreate
  apply Sat.seq
  apply (kalloc_spec (R := fun _ _ _ => True) me h).mono
  rintro pt k₁ ⟨g₁, hready, hquiet, -, hgot⟩
  split
  · next h0 => exact Sat.ret ⟨⟨g₁, hready⟩, Or.inl ⟨rfl, hquiet.calm.weaken⟩⟩
  · next h0 =>
      obtain ⟨hheld, hown⟩ := hgot.held h0
      have hnone := h.inv.no_table hown
      have hnone₁ : k₁.tables pt = none := by
        have := hquiet.tables pt
        rw [hnone] at this
        simpa using this
      have hentry : ∀ r v, Tables.entry (update k₁.tables pt (some .empty)) r v =
          k₁.tables.entry r v := by
        intro r v
        unfold Tables.entry
        by_cases hr : r = pt
        · rw [hr, update_self, hnone₁]
          rfl
        · rw [update_of_ne hr]
      apply Sat.seq_update
      refine Sat.ret ⟨⟨_, hready.inv.relink hheld (hready.inv.tree.newRoot (by rw [hheld]; rfl)) ?_,
        hready.lock⟩, Or.inr ⟨h0, hnone, ?_, update_self ..⟩⟩
      · intro r v e _
        rw [hentry]
      · refine (hquiet.calm.apart fun _ _ (hf : False) => hf.elim).trans ?_
        refine ⟨fun _ => rfl, rfl, ?_, ?_, ?_⟩
        · intro r hr
          rw [setTables_tables, update_of_ne hr]
        · intro r v e _ _ he _
          rw [← hentry]
          exact he
        · intro r v _ he e he'
          rw [setTables_tables, hentry] at he'
          exact he e he'

/-- Fixed pages stay with their owner. -/
theorem Quiet.fixed {R : View D} (h : Quiet R c g k g₁ k₁) (hfix : (g pa).isFixed = true) :
    g₁ pa = g pa := by
  apply h.own
  · intro hf
    rw [hf] at hfix
    cases hfix
  · intro r v hf
    rw [hf] at hfix
    cases hfix

/-- The trampoline or the trapframe page is mapped, or nothing happened. -/
theorem mappages_special (h : Ready c g k) (hr : (k.tables r).isSome)
    (he : k.tables.Empty r (vpn a)) (hv : Special (vpn a)) (hal : pa % pgsize = 0) (hlt : pa < phystop)
    (hfix : (g pa).isFixed = true) (hup : upper perm = 0) (hS : perm.getLsbD pteS = false) :
    Sat (watch c) (mappages me r a pgsize pa perm) (fun res k' => (∃ g', Ready c g' k' ∧
      ∀ b, (g b).isFixed = true → g' b = g b) ∧
      ((res = -1 ∧ Calm none (fun _ _ => False) k k') ∨ (res = 0 ∧ Placed r (vpn a) pa k k'))) k := by
  apply (mappages_spec (R := fun _ _ _ => True) me a pa perm h hr he).mono
  rintro res k' ⟨g₁, k₁, hready, hquiet, ⟨rfl, rfl⟩ | ⟨rfl, -, he₁, rfl⟩⟩
  · exact ⟨⟨g₁, hready, fun b hb => hquiet.fixed hb⟩, Or.inl ⟨rfl, hquiet.calm.weaken⟩⟩
  · have hpa : pte2pa (mapEntry pa perm) = pa := pte2pa_mapEntry hal hlt hup
    refine ⟨⟨g₁, ⟨⟨hready.inv.free, hready.inv.tree.setEntry _ _, hready.inv.trap, ?_, ?_,
      hready.inv.extra⟩, hready.lock⟩, fun b hb => hquiet.fixed hb⟩,
      Or.inr ⟨rfl, hquiet.calm.placed hpa⟩⟩
    · refine hready.inv.pages.setSpecial he₁ hv ?_ ?_ ?_
      · rw [mapEntry_flag _ _ (by decide) (by decide), hS]
      · intro hV
        rw [mapEntry_valid] at hV
        cases hV
      · intro _
        rw [hpa, hquiet.fixed hfix]
        exact hfix
    · exact hready.inv.frames.of_invalid he₁ (Or.inl hv) (Or.inl hv)

omit [SwapStore D] in
/-- The trapframe of a process may be mapped outside user memory; a null pointer belongs to nobody. -/
theorem Inv.trapframe_fixed (h : Inv c g k) (p : ProcId) : (k.proc p).trapframe % pgsize = 0 ∧
    (k.proc p).trapframe < phystop ∧ (g (k.proc p).trapframe).isFixed = true := by
  by_cases htf : (k.proc p).trapframe = 0
  · have hidle : g 0 = .idle := by
      by_contra hne
      exact h.ne_zero hne rfl
    rw [htf, hidle]
    exact ⟨rfl, by decide, rfl⟩
  · have hown := h.trap.trap p htf
    obtain ⟨hal, -, hlt⟩ := h.free.frame _ (by rw [hown]; simp)
    exact ⟨hal, hlt, by rw [hown]; rfl⟩

/-- **`proc_pagetable`**. -/
theorem procPagetable_spec (h : Ready c g k) :
    Sat (watch c) (procPagetable me p) (fun pt k' => (∃ g', Ready c g' k') ∧
      ((pt = 0 ∧ Calm none (fun _ _ => False) k k') ∨
        (pt ≠ 0 ∧ Created (k.proc p).trapframe pt k k'))) k := by
  unfold procPagetable
  apply Sat.seq
  apply (uvmcreate_spec h).mono
  rintro pt k₁ ⟨⟨g₁, hready⟩, ⟨rfl, hcalm⟩ | ⟨h0, habsent, happart, hempty⟩⟩
  · rw [if_pos rfl]
    exact Sat.ret ⟨⟨g₁, hready⟩, Or.inl ⟨rfl, hcalm⟩⟩
  · rw [if_neg h0]
    have hW : (watch c : Watch Panic (Eviction D)).allowed .kfree := watch_allowed id
    have hr : (k₁.tables pt).isSome := by rw [hempty]; rfl
    have hnone : ∀ v, k₁.tables.Empty pt v := by
      intro v e he
      simp [Tables.entry, hempty, PageTable.empty, PageTable.entry, PageTable.leafTable] at he
    -- on every way out the new table is empty again before it is freed
    have hundo : ∀ {k₂ : Kernel D} {g₂ : Ledger}, Ready c g₂ k₂ → Apart pt k k₂ → (k₂.tables pt).isSome →
        (∀ v, k₂.tables.Empty pt v) →
        Sat (watch c) (do uvmfree pt 0; pure 0) (fun pt k' => (∃ g', Ready c g' k') ∧
          ((pt = 0 ∧ Calm none (fun _ _ => False) k k') ∨
            (pt ≠ 0 ∧ Created (k.proc p).trapframe pt k k'))) k₂ := by
      intro k₂ g₂ hready₂ happart₂ hr₂ hall
      apply Sat.seq
      apply (uvmfree_spec hW hready₂ hr₂ (Nat.zero_le _) (fun v _ _ => hall v) fun v _ => hall v).mono
      rintro _ k₃ ⟨hready₃, happart₃, hgone, -⟩
      exact Sat.ret ⟨hready₃, Or.inl ⟨rfl, (happart₂.trans happart₃).calm habsent hgone⟩⟩
    have hidle : g₁ k₁.image.trampoline = .idle := by
      by_contra hne
      exact absurd k₁.image.trampoline_lt (Nat.not_lt.mpr (hready.inv.free.frame _ hne).2.1)
    have htf₁ : (k₁.proc p).trapframe = (k.proc p).trapframe := (happart.procs p).trapframe
    obtain ⟨haligned, hhi, hfix⟩ := hready.inv.trapframe_fixed p
    apply Sat.seq_get
    apply Sat.seq
    apply (mappages_special hready hr (hnone _) (Or.inl rfl) k₁.image.trampoline_aligned
      (lt_of_lt_of_le k₁.image.trampoline_lt k₁.image.kend_le) (by rw [hidle]; rfl) (by decide)
      (by decide)).mono
    rintro res k₂ ⟨⟨g₂, hready₂, hfix₂⟩, ⟨rfl, hcalm₂⟩ | ⟨rfl, hplaced₂⟩⟩
    · rw [if_pos (by decide)]
      exact hundo hready₂ (happart.trans (hcalm₂.apart fun _ _ hf => hf.elim))
        ((hcalm₂.tables pt).trans hr) fun v => hcalm₂.empty pt v id (hnone v)
    · rw [if_neg (by decide)]
      have hne : vpn trapframe ≠ vpn trampoline := by decide
      have happart₂ := happart.trans hplaced₂.apart
      have hr₂ := hplaced₂.table.trans hr
      apply Sat.seq
      apply (mappages_special hready₂ hr₂ (hplaced₂.empty _ hne (hnone _)) (Or.inr rfl) haligned hhi
        (by rw [hfix₂ _ hfix]; exact hfix) (by decide) (by decide)).mono
      rintro res k₃ ⟨⟨g₃, hready₃, -⟩, ⟨rfl, hcalm₃⟩ | ⟨rfl, hplaced₃⟩⟩
      · rw [if_pos (by decide)]
        apply Sat.seq
        apply (uvmunmap_special hready₃ ((hcalm₃.tables pt).trans hr₂) (by decide) (by decide)
          (Or.inl rfl)).mono
        rintro _ k₄ ⟨hready₄, hclear⟩
        refine hundo hready₄ ((happart₂.trans (hcalm₃.apart fun _ _ hf => hf.elim)).trans
          (hclear.calm.apart fun _ _ (hf : False) => hf.elim))
          ((hclear.tables pt).trans ((hcalm₃.tables pt).trans hr₂)) ?_
        intro v
        by_cases hv : v = vpn trampoline
        · exact hclear.cleared v hv
        · exact hclear.empty (hcalm₃.empty pt v id (hplaced₂.empty v hv (hnone v)))
      · rw [if_neg (by decide)]
        refine Sat.ret ⟨⟨g₃, hready₃⟩, Or.inr ⟨h0, happart₂.trans hplaced₃.apart, habsent,
          hplaced₃.table.trans hr₂, ?_, ?_⟩⟩
        · intro v hv _
          rw [Special, not_or] at hv
          exact hplaced₃.empty v hv.2 (hplaced₂.empty v hv.1 (hnone v))
        · intro v e hv he hV
          by_cases hvt : v = vpn trapframe
          · subst hvt
            rw [← htf₁]
            exact Or.inr (hplaced₃.here e he)
          · have h0 : e ≠ 0 := by
              rintro rfl
              simp at hV
            have hvr := hv.resolve_right hvt
            subst hvr
            rw [hplaced₃.apart.image, hplaced₂.apart.image]
            exact Or.inl (hplaced₂.here e (hplaced₃.special _ e hvt hv he h0))

/-! ## `proc_freepagetable` -/

/-- **`proc_freepagetable`** of a table whose user pages lie below `sz`. -/
theorem procFreepagetable_spec {W : Watch Panic (Eviction D)} {sz : Nat} (hW : W.allowed .kfree)
    (h : Ready c g k) (hr : (k.tables r).isSome) (hsz : sz ≤ trapframe)
    (hempty : k.tables.EmptyFrom r (pgroundup sz)) :
    Sat W (procFreepagetable r sz)
      (fun _ k' => (∃ g', Ready c g' k') ∧ Apart r k k' ∧ k'.tables r = none ∧ ∀ H, Draws r H H k k') k := by
  unfold procFreepagetable
  apply Sat.seq
  apply (uvmunmap_special h hr (by decide) (by decide) (Or.inl rfl)).mono
  rintro _ k₁ ⟨hready₁, hclear₁⟩
  apply Sat.seq
  apply (uvmunmap_special hready₁ ((hclear₁.tables r).trans hr) (by decide) (by decide) (Or.inr rfl)).mono
  rintro _ k₂ ⟨hready₂, hclear₂⟩
  have hclear := hclear₁.trans hclear₂
  apply (uvmfree_spec hW hready₂ ((hclear.tables r).trans hr) hsz
    (fun v hv ha => hclear.empty (hempty v hv ha)) fun v hv => hclear.cleared v hv).mono
  rintro _ k₃ ⟨hready₃, happart, hgone, hdraws⟩
  exact ⟨hready₃, (hclear.calm.apart fun _ _ (hf : False) => hf.elim).trans happart, hgone,
    fun H => (hclear.draws H).trans (hdraws H)⟩

/-! ## `freeproc` -/

omit [SwapStore D] in
/-- A table that is gone is not stale any more. -/
theorem Ready.forget {x : Option (ProcId × Nat)} (h : Ready ⟨x, some pt⟩ g k) (hgone : k.tables pt = none) :
    Ready ⟨x, none⟩ g k := by
  refine ⟨⟨h.inv.free, h.inv.tree, h.inv.trap, ?_, h.inv.frames, h.inv.extra⟩, h.lock⟩
  have hp := h.inv.pages
  refine ⟨hp.special, ?_, hp.zero, hp.resident, hp.swapped, hp.slot⟩
  intro r v e he hv hV _
  refine hp.fixed he hv hV ?_
  rintro ⟨⟩
  simp [Tables.entry, hgone] at he

omit [SwapStore D] in
/-- A process changes, apart from its table and its trapframe. -/
theorem Ready.setProc (h : Ready .plain g k) {f : Proc → Proc}
    (hpt : (f (k.proc p)).pagetable = (k.proc p).pagetable)
    (htf : (f (k.proc p)).trapframe = (k.proc p).trapframe) : Ready .plain g (k.updProc p f) := by
  have hroots : (fun q => ((k.updProc p f).proc q).pagetable) = fun q => (k.proc q).pagetable := by
    funext q
    show (update k.proc p (f (k.proc p)) q).pagetable = _
    by_cases hq : q = p
    · rw [hq, update_self, hpt]
    · rw [update_of_ne hq]
  have htraps : (fun q => ((k.updProc p f).proc q).trapframe) = fun q => (k.proc q).trapframe := by
    funext q
    show (update k.proc p (f (k.proc p)) q).trapframe = _
    by_cases hq : q = p
    · rw [hq, update_self, htf]
    · rw [update_of_ne hq]
  refine ⟨⟨h.inv.free, h.inv.tree, ?_, h.inv.pages, ?_, fun _ _ hx => by cases hx⟩, h.lock⟩
  · rw [htraps]
    exact h.inv.trap
  · rw [hroots]
    exact h.inv.frames

/-- The kernel after the trapframe of `p` is freed and forgotten. -/
def Kernel.trapframeFreed (k : Kernel D) (p : ProcId) : Kernel D :=
  (if (k.proc p).trapframe = 0 then k else k.returned (k.proc p).trapframe).updProc p
    fun q => { q with trapframe := 0 }

omit [SwapStore D] in
theorem Kernel.trapframeFreed_proc (q : ProcId) : (k.trapframeFreed p).proc q =
    if q = p then { k.proc p with trapframe := 0 } else k.proc q := by
  unfold Kernel.trapframeFreed
  by_cases h0 : (k.proc p).trapframe = 0
  · rw [if_pos h0]
    by_cases hq : q = p
    · rw [if_pos hq, hq]
      exact update_self ..
    · rw [if_neg hq]
      exact update_of_ne hq _ _
  · rw [if_neg h0]
    by_cases hq : q = p
    · rw [if_pos hq, hq]
      exact update_self ..
    · rw [if_neg hq]
      exact update_of_ne hq _ _

omit [SwapStore D] in
theorem Kernel.trapframeFreed_tables : (k.trapframeFreed p).tables = k.tables := by
  unfold Kernel.trapframeFreed
  split <;> rfl

omit [SwapStore D] in
theorem Kernel.trapframeFreed_image : (k.trapframeFreed p).image = k.image := by
  unfold Kernel.trapframeFreed
  split <;> rfl

omit [SwapStore D] in
/-- Without its trapframe the table of the process is stale. -/
theorem Ready.trapframeFreed (h : Ready .plain g k) (hs : Spaces k) :
    ∃ g', Ready ⟨none, some (k.proc p).pagetable⟩ g' (k.trapframeFreed p) := by
  have hroots : (fun q => ((k.trapframeFreed p).proc q).pagetable) = fun q => (k.proc q).pagetable := by
    funext q
    rw [trapframeFreed_proc]
    split
    · next hq => rw [hq]
    · rfl
  have htraps : (fun q => ((k.trapframeFreed p).proc q).trapframe) =
      update (fun q => (k.proc q).trapframe) p 0 := by
    funext q
    rw [trapframeFreed_proc]
    by_cases hq : q = p
    · rw [if_pos hq, hq, update_self]
    · rw [if_neg hq, update_of_ne hq]
  by_cases h0 : (k.proc p).trapframe = 0
  · have hk : k.trapframeFreed p = k.updProc p fun q => { q with trapframe := 0 } := by
      unfold Kernel.trapframeFreed
      rw [if_pos h0]
    refine ⟨g, ?_⟩
    have hready := h.setProc (p := p) (f := fun q => { q with trapframe := 0 }) rfl h0.symm
    rw [hk]
    refine ⟨⟨hready.inv.free, hready.inv.tree, hready.inv.trap, ?_, hready.inv.frames,
      fun _ _ hx => by cases hx⟩, hready.lock⟩
    have hp := hready.inv.pages
    exact ⟨hp.special, fun he hv hV _ => hp.fixed he hv hV (by simp [Ctx.plain]), hp.zero, hp.resident,
      hp.swapped, hp.slot⟩
  · have hown := h.inv.trap.trap p h0
    refine ⟨update g (k.proc p).trapframe .free, ⟨?_, ?_, ?_, ?_, ?_, fun _ _ hx => by cases hx⟩, ?_⟩
    · unfold Kernel.trapframeFreed
      rw [if_neg h0]
      exact h.inv.free.push (by rw [hown]; simp) (by rw [hown]; simp)
    · rw [trapframeFreed_tables]
      exact h.inv.tree.reown (by rw [hown]; rfl)
    · rw [htraps]
      refine h.inv.trap.drop p fun q hq => ?_
      rw [hown] at hq
      cases hq
      rfl
    · have hpages : PagesOk (some (k.proc p).pagetable) (update g (k.proc p).trapframe .free)
          k.tables k.swaptable := by
        refine h.inv.pages.dropTrapframe hown ?_ fun _ hf => by cases hf
        intro r v e he hv hV hpa
        obtain ⟨q, rfl⟩ := hs.owner r (Option.isSome_iff_exists.mpr (isSome_of_entry he))
        rcases (hs.each q).special (hs.ne_zero he) v e hv he hV with htramp | htf
        · have hidle : g k.image.trampoline = .idle := by
            by_contra hne
            exact absurd k.image.trampoline_lt (Nat.not_lt.mpr (h.inv.free.frame _ hne).2.1)
          rw [← hpa, htramp, hidle] at hown
          cases hown
        · have hq : (k.proc q).trapframe ≠ 0 := by
            rw [← htf, hpa]
            exact h0
          have := h.inv.trap.trap q hq
          rw [← htf, hpa, hown] at this
          cases this
          rfl
      unfold Kernel.trapframeFreed
      rw [if_neg h0]
      exact hpages
    · rw [hroots, trapframeFreed_tables]
      unfold Kernel.trapframeFreed
      rw [if_neg h0]
      exact h.inv.frames
    · unfold Kernel.trapframeFreed
      rw [if_neg h0]
      exact h.lock

omit [SwapStore D] in
/-- A process whose table is gone, or that has none, gets another one, or none. -/
theorem Ready.setTable (h : Ready .plain g k) (hgone : k.tables (k.proc p).pagetable = none)
    {f : Proc → Proc} (hf : ∀ q, (f q).trapframe = q.trapframe) : Ready .plain g (k.updProc p f) := by
  have htraps : (fun q => ((k.updProc p f).proc q).trapframe) = fun q => (k.proc q).trapframe :=
    funext fun q => updProc_trapframe (k := k) hf p q
  refine ⟨⟨h.inv.free, h.inv.tree, ?_, h.inv.pages, ?_, fun _ _ hx => by cases hx⟩, h.lock⟩
  · rw [htraps]
    exact h.inv.trap
  · refine h.inv.frames.setRoots ?_
    rintro q r (rfl | hx) hr
    · left
      show _ = (update k.proc p (f (k.proc p)) q).pagetable
      by_cases hq : q = p
      · rw [hq, hgone] at hr
        cases hr
      · rw [update_of_ne hq]
    · cases hx

/-- What `freeproc` leaves: the slot is vacant, and the other processes are as they were. -/
structure Freed (p : ProcId) (k k' : Kernel D) : Prop where
  ready : ∃ g', Ready .plain g' k'
  spaces : Spaces k'
  self : (k'.proc p).state = .unused
  others : ∀ q, q ≠ p → (k.proc q).SameButStats (k'.proc q)

omit [SwapStore D] in
/-- The end of `freeproc`, when the table of the process is gone. -/
theorem Freed.of_gone (hs : Spaces k) (h : Ready .plain g k₁)
    (happart : Apart (k.proc p).pagetable (k.trapframeFreed p) k₁)
    (hgone : k₁.tables (k.proc p).pagetable = none) : Freed p k (k₁.updProc p Proc.release) := by
  have hproc : ∀ q, q ≠ p → (k.trapframeFreed p).proc q = k.proc q := by
    intro q hq
    rw [trapframeFreed_proc, if_neg hq]
  have hself : (k.trapframeFreed p).proc p = { k.proc p with trapframe := 0 } := by
    rw [trapframeFreed_proc, if_pos rfl]
  have hpt : (k₁.proc p).pagetable = (k.proc p).pagetable := by
    rw [(happart.procs p).pagetable, hself]
  refine ⟨⟨g, h.setTable (by rw [hpt]; exact hgone) fun _ => rfl⟩, ?_, ?_, ?_⟩
  · exact hs.drop hproc (by rw [hself]) trapframeFreed_tables trapframeFreed_image happart
      hgone
  · show (update k₁.proc p (k₁.proc p).release p).state = .unused
    rw [update_self]
    rfl
  · intro q hq
    show (k.proc q).SameButStats (update k₁.proc p (k₁.proc p).release q)
    rw [update_of_ne hq, ← hproc q hq]
    exact happart.procs q

/-- **`freeproc`**. -/
theorem freeproc_spec {W : Watch Panic (Eviction D)} (hW : W.allowed .kfree) (h : Ready .plain g k)
    (hs : Spaces k) : Sat W (freeproc p) (fun _ k' => Freed p k k') k := by
  obtain ⟨g₁, hready⟩ := h.trapframeFreed (p := p) hs
  have hself : (k.trapframeFreed p).proc p = { k.proc p with trapframe := 0 } := by
    rw [trapframeFreed_proc, if_pos rfl]
  suffices hrest : Sat W (do
      let q := (← get).proc p
      if q.pagetable ≠ 0 then procFreepagetable q.pagetable q.sz
      modify fun k => k.updProc p Proc.release) (fun _ k' => Freed p k k') (k.trapframeFreed p) by
    unfold freeproc
    apply Sat.seq_get
    dsimp only
    unfold Kernel.trapframeFreed at hrest
    by_cases h0 : (k.proc p).trapframe = 0
    · rw [if_pos h0] at hrest
      rw [if_neg (not_not.mpr h0)]
      exact Sat.seq_update hrest
    · have hown := h.inv.trap.trap p h0
      rw [if_neg h0] at hrest
      rw [if_pos h0]
      apply Sat.seq_run (kfree_unregistered h (by rw [hown]; simp) (by rw [hown]; simp))
      exact Sat.seq_update hrest
  apply Sat.seq_get
  rw [hself]
  dsimp only
  by_cases hpt : (k.proc p).pagetable = 0
  · rw [if_neg (not_not.mpr hpt)]
    have hgone : (k.trapframeFreed p).tables (k.proc p).pagetable = none := by
      rw [trapframeFreed_tables, hpt]
      exact hs.null
    apply Sat.update
    exact Freed.of_gone hs (hready.forget hgone) .refl hgone
  · rw [if_pos hpt]
    have hspace := hs.each p
    have hr : ((k.trapframeFreed p).tables (k.proc p).pagetable).isSome := by
      rw [trapframeFreed_tables]
      exact hspace.table hpt
    apply Sat.seq
    apply (procFreepagetable_spec hW hready hr hspace.size (by
      rw [trapframeFreed_tables]
      exact hspace.above hpt)).mono
    rintro _ k₂ ⟨⟨g₂, hready₂⟩, happart, hgone, -⟩
    apply Sat.update
    exact Freed.of_gone hs (hready₂.forget hgone) happart hgone

end Xv6
