import Xv6.Vm.FreewalkSpec
import Xv6.Vm.SpaceSpec

/-!
# Growing, shrinking and copying address spaces

`uvmalloc` and `uvmcopy` fill a range of empty pages one by one. When they run out of memory in the
middle they take back what they did, so a failed call leaves no page behind.
-/

namespace Xv6

open Function

variable {D : Type} {k k' k₁ : Kernel D} {c : Ctx} {g g₁ : Ledger} {r a n lo hi oldsz newsz : Nat} {v : Vpn}

open TraceM

/-! ## Ranges of pages -/

theorem pgroundup_mono {a b : Nat} (h : a ≤ b) : pgroundup a ≤ pgroundup b := by
  unfold pgroundup pgsize
  omega

theorem pgroundup_of_aligned (h : a % pgsize = 0) : pgroundup a = a := by
  unfold pgroundup pgsize at *
  omega

theorem pgroundup_div_mul (sz : Nat) : 0 + pgroundup sz / pgsize * pgsize = pgroundup sz := by
  have := pgroundup_aligned sz
  unfold pgsize at *
  omega

theorem pgroundup_le (h : a ≤ trapframe) : pgroundup a ≤ trapframe := by
  have := pgroundup_mono h
  rwa [pgroundup_of_aligned (by decide : trapframe % pgsize = 0)] at this

/-- The pages of the table `r` from the address `lo` up to `hi`. -/
def Span (r lo hi : Nat) : Nat → Vpn → Prop := fun r' v => r' = r ∧ lo ≤ v.addr ∧ v.addr < hi

/-- No user page of `r` is in use from the address `a` on. -/
def Tables.EmptyFrom (T : Tables) (r a : Nat) : Prop :=
  ∀ v, ¬ Special v → a ≤ v.addr → T.Empty r v

namespace Calm

variable {x : Option (ProcId × Nat)} {X Y : Nat → Vpn → Prop}

/-- Pages that are empty in the end need not be counted among those that may have changed. -/
theorem shrink (h : Calm x X k k') (hX : ∀ r v, X r v → ¬ Y r v → k'.tables.Empty r v) :
    Calm x Y k k' := by
  refine ⟨h.procs, h.image, h.tables, h.special, ?_, h.extra⟩
  intro r v hY he
  by_cases hXv : X r v
  · exact hX r v hXv hY
  · exact h.empty r v hXv he

end Calm

/-! ## Changes of one table -/

/-- Only the table `r` changed, apart from evictions. -/
structure Apart (r : Nat) (k k' : Kernel D) : Prop where
  procs : ∀ p, (k.proc p).SameButStats (k'.proc p)
  image : k'.image = k.image
  tables : ∀ r', r' ≠ r → (k'.tables r').isSome = (k.tables r').isSome
  special : ∀ r' v e, r' ≠ r → Special v → k'.tables.entry r' v = some e → e ≠ 0 →
    k.tables.entry r' v = some e
  empty : ∀ r' v, r' ≠ r → k.tables.Empty r' v → k'.tables.Empty r' v

theorem Apart.refl : Apart r k k :=
  ⟨fun _ => rfl, rfl, fun _ _ => rfl, fun _ _ _ _ _ he _ => he, fun _ _ _ he => he⟩

theorem Apart.trans {k'' : Kernel D} (h : Apart r k k') (h' : Apart r k' k'') : Apart r k k'' where
  procs p := (h.procs p).trans (h'.procs p)
  image := h'.image.trans h.image
  tables r' hr' := (h'.tables r' hr').trans (h.tables r' hr')
  special r' v e hr' hv he h0 := h.special r' v e hr' hv (h'.special r' v e hr' hv he h0) h0
  empty r' v hr' he := h'.empty r' v hr' (h.empty r' v hr' he)

theorem Calm.apart {x : Option (ProcId × Nat)} {X : Nat → Vpn → Prop} (h : Calm x X k k')
    (hX : ∀ r' v, X r' v → r' = r) : Apart r k k' :=
  ⟨h.procs, h.image, fun r' _ => h.tables r', fun r' v e _ => h.special r' v e,
    fun r' v hr' => h.empty r' v fun hf => hr' (hX r' v hf)⟩

/-- A table that was not there before and is gone again. -/
theorem Apart.calm {X : Nat → Vpn → Prop} (h : Apart r k k') (hr : k.tables r = none)
    (hr' : k'.tables r = none) : Calm none X k k' := by
  have hnone : ∀ v, k'.tables.entry r v = none := fun v => by simp [Tables.entry, hr']
  refine ⟨h.procs, h.image, ?_, ?_, ?_, fun _ _ _ _ hx => by cases hx⟩
  · intro r₁
    by_cases h₁ : r₁ = r
    · rw [h₁, hr, hr']
    · exact h.tables r₁ h₁
  · intro r₁ v e hv he h0
    by_cases h₁ : r₁ = r
    · rw [h₁, hnone] at he
      cases he
    · exact h.special r₁ v e h₁ hv he h0
  · intro r₁ v _ he
    by_cases h₁ : r₁ = r
    · intro e he'
      rw [h₁, hnone] at he'
      cases he'
    · exact h.empty r₁ v h₁ he

/-! ## Shrinking -/

section Shrink

variable [SwapStore D] {W : Watch Panic (Eviction D)}

/-- `uvmdealloc` empties the pages between the two sizes. -/
theorem uvmdealloc_spec (hW : W.allowed .kfree) (h : Ready c g k) (hr : (k.tables r).isSome)
    (hle : oldsz ≤ trapframe) :
    Sat W (uvmdealloc r oldsz newsz) (fun res k' => (∃ g', Ready c g' k') ∧ res = min oldsz newsz ∧
      Cleared r (fun v => pgroundup newsz ≤ v.addr ∧ v.addr < pgroundup oldsz) k k') k := by
  have hidle : pgroundup oldsz ≤ pgroundup newsz →
      Cleared r (fun v => pgroundup newsz ≤ v.addr ∧ v.addr < pgroundup oldsz) k k := by
    intro hup
    exact .refl fun v hv => absurd (hv.1.trans_lt hv.2) (Nat.not_lt.mpr hup)
  unfold uvmdealloc
  split
  · next hold => exact Sat.ret ⟨⟨g, h⟩, (Nat.min_eq_left hold).symm, hidle (pgroundup_mono hold)⟩
  · next hold =>
      have hmin : newsz = min oldsz newsz := by omega
      split
      · next hup =>
          have hfit : pgroundup newsz + (pgroundup oldsz - pgroundup newsz) / pgsize * pgsize =
              pgroundup oldsz := by
            have h₁ := pgroundup_aligned oldsz
            have h₂ := pgroundup_aligned newsz
            unfold pgsize at *
            omega
          apply Sat.seq
          apply (uvmunmap_spec hW h hr (pgroundup_aligned newsz)
            (by rw [hfit]; exact pgroundup_le hle)).mono
          rintro _ k₁ ⟨hready, hclear⟩
          refine Sat.ret ⟨hready, hmin, hclear.congr fun v => ?_⟩
          unfold InRange
          rw [hfit]
      · next hup => exact Sat.ret ⟨⟨g, h⟩, hmin, hidle (Nat.not_lt.mp hup)⟩

/-- **`uvmfree`** of a table without special pages whose user pages lie below `sz`. -/
theorem uvmfree_spec {sz : Nat} (hW : W.allowed .kfree) (h : Ready c g k) (hr : (k.tables r).isSome)
    (hsz : sz ≤ trapframe) (hempty : k.tables.EmptyFrom r (pgroundup sz))
    (hspecial : ∀ v, Special v → k.tables.Empty r v) :
    Sat W (uvmfree r sz) (fun _ k' => (∃ g', Ready c g' k') ∧ Apart r k k' ∧ k'.tables r = none ∧
      ∀ H, Draws r H H k k') k := by
  have hwalk : ∀ {g₁ : Ledger} {k₁ : Kernel D} {P : Vpn → Prop}, Ready c g₁ k₁ → Cleared r P k k₁ →
      (∀ v, v.addr < pgroundup sz → P v) →
      Sat W (freewalk r) (fun _ k' => (∃ g', Ready c g' k') ∧ Apart r k k' ∧ k'.tables r = none ∧
        ∀ H, Draws r H H k k') k₁ := by
    intro g₁ k₁ P hready hclear hP
    have hall : ∀ v, k₁.tables.Empty r v := by
      intro v
      by_cases hv : v.addr < pgroundup sz
      · exact hclear.cleared v (hP v hv)
      · by_cases hs : Special v
        · exact hclear.empty (hspecial v hs)
        · exact hclear.empty (hempty v hs (Nat.not_lt.mp hv))
    apply (freewalk_spec hready ((hclear.tables r).trans hr) hall).mono
    rintro _ k₂ ⟨hready₂, hproc, himage, htab, hdraws⟩
    have hentry : ∀ r' v, r' ≠ r → k₂.tables.entry r' v = k₁.tables.entry r' v := by
      intro r' v hr'
      unfold Tables.entry
      rw [htab, update_of_ne hr']
    have happart : Apart r k₁ k₂ := by
      refine ⟨fun p => by rw [hproc]; rfl, himage, ?_, ?_, ?_⟩
      · intro r' hr'
        rw [htab, update_of_ne hr']
      · intro r' v e hr' _ he _
        rw [← hentry r' v hr']
        exact he
      · intro r' v hr' he e he'
        rw [hentry r' v hr'] at he'
        exact he e he'
    refine ⟨hready₂, (hclear.calm.apart fun _ _ (hf : False) => hf.elim).trans happart, ?_,
      fun H => (hclear.draws H).trans (hdraws H)⟩
    rw [htab, update_self]
  unfold uvmfree
  split
  · have hfit := pgroundup_div_mul sz
    apply Sat.seq
    apply (uvmunmap_spec hW h hr rfl (by rw [hfit]; exact pgroundup_le hsz)).mono
    rintro _ k₁ ⟨⟨g₁, hready⟩, hclear⟩
    apply hwalk hready hclear
    intro v hv
    exact ⟨Nat.zero_le _, by rw [hfit]; exact hv⟩
  · next h0 =>
      have hz : pgroundup sz = 0 := by
        have h0' : sz = 0 := by omega
        subst h0'
        rfl
      refine hwalk (P := fun _ => False) h (.refl fun v hf => hf.elim) ?_
      intro v hv
      rw [hz] at hv
      omega

end Shrink

/-! ## Growing -/

section Grow

variable [SwapStore D] {R : View D} {perm : Pte}

/-- A frame for the page `a` of `r`, filled with `page` and mapped there. -/
theorem getFrame_fill {α : Type} {Q : α → Kernel D → Prop} {fail succ nomem : KM D α}
    {page : Kernel D → Page} (me p : ProcId) (h : Ready c g k) (hr : (k.tables r).isSome)
    (hempty : k.tables.Empty r (vpn a)) (hroot : r = (k.proc p).pagetable ∨ c.extra = some (p, r))
    (hlt : a < trapframe) (hup : upper perm = 0) (hS : perm.getLsbD pteS = false)
    (hnomem : ∀ k' g', Ready c g' k' → Calm c.extra (fun _ _ => False) k k' → Sat (watch c) nomem Q k')
    (hfail : ∀ k' g', Ready c g' k' → Calm c.extra (fun _ _ => False) k k' → Sat (watch c) fail Q k')
    (hsucc : ∀ {mem g₁ k₁ g' k'}, Quiet R c g k g₁ k₁ → Ready c g₁ k₁ → g₁ mem = .held → Ready c g' k' →
      Calm c.extra (OnlyPage r (vpn a)) k k' →
      FilledWith R c r (vpn a) (mapEntry mem perm) (k₁.setMem mem (page k₁)) k' → Sat (watch c) succ Q k') :
    Sat (watch c) (do
      let mem ← getFrame me
      if mem = 0 then nomem
      else
        modify fun k => k.setMem mem (page k)
        if (← mappages me r a pgsize mem perm) ≠ 0 then
          kfree mem
          fail
        else
          frametableAlloc me mem p a
          succ) Q k := by
  apply Sat.seq
  apply (getFrame_spec (R := R) me h).mono
  rintro mem k₁ ⟨⟨g₁, hready, hquiet, -, hgot⟩, hactive⟩
  split
  · exact hnomem k₁ g₁ hready hquiet.calm
  · next h0 =>
      obtain ⟨hheld, -⟩ := hgot.held h0
      have hcalm : ∀ {X}, Calm c.extra X k (k₁.setMem mem (page k₁)) := fun {X} =>
        hquiet.calm.trans (.of_tables (fun _ => rfl) rfl rfl)
      apply Sat.seq_update
      refine mappages_register (R := R) me p (hready.setMem (page k₁)) hheld
        (hactive h0) ((hquiet.tables _).trans hr) (hquiet.empty hempty) ?_ hlt hup hS ?_ ?_
      · show r = (k₁.proc p).pagetable ∨ _
        rw [(hquiet.procs p).pagetable]
        exact hroot
      · intro k₂ hdrop
        obtain ⟨g₂, hready₂⟩ := hdrop.ready
        exact hfail k₂ g₂ hready₂ (hcalm.trans hdrop.calm)
      · intro k₂ hfill
        obtain ⟨g₂, hready₂⟩ := hfill.ready
        exact hsucc hquiet hready hheld hready₂ (hcalm.trans hfill.calm) hfill

/-- The permissions `uvmalloc` gives. -/
def growPerm (xperm : Pte) : Pte := bit pteR ||| bit pteU ||| xperm

/-- What is left when a loop that fills the pages of `r` from `lo` on fails before the page `a`. Only the
pages in `X` may have been filled. -/
structure Undone (X : Nat → Vpn → Prop) (r lo a : Nat) (k k' : Kernel D) : Prop where
  calm : Calm none X k k'
  empty : ∀ v, lo ≤ v.addr → v.addr < a → k'.tables.Empty r v

omit [SwapStore D] in
/-- Failing at `a` after a page was filled there and taken back again. -/
theorem Undone.cons {x : Option (ProcId × Nat)} {X Y : Nat → Vpn → Prop} (hcalm : Calm x Y k k₁)
    (h : Undone X r lo (a + pgsize) k₁ k')
    (hY : ∀ r' v, Y r' v → X r' v ∨ Span r lo (a + pgsize) r' v) : Undone X r lo a k k' := by
  refine ⟨?_, fun v hlo hlt => h.empty v hlo (by omega)⟩
  have hall : Calm none (fun r' v => Y r' v ∨ X r' v) k k' :=
    (hcalm.weaken.mono fun _ _ => Or.inl).trans (h.calm.mono fun _ _ => Or.inr)
  apply hall.shrink
  intro r' v hv hX
  obtain ⟨rfl, hlo, hlt⟩ := (hY r' v (hv.resolve_right hX)).resolve_left hX
  exact h.empty v hlo hlt

variable {me : ProcId} {xperm : Pte}

/-- **One turn of `uvmalloc`** fills the page, or changes nothing that matters. -/
theorem growPage_spec (hup : upper (growPerm xperm) = 0) (hS : (growPerm xperm).getLsbD pteS = false)
    (h : Ready c g k) (hr : (k.tables r).isSome) (hroot : r = (k.proc me).pagetable ∨ c.extra = some (me, r))
    (hempty : k.tables.Empty r (vpn a)) (hlt : a < trapframe) :
    Sat (watch c) (growPage me r a xperm) (fun ok k' => (∃ g', Ready c g' k') ∧
      Calm c.extra (fun r' v => ok = true ∧ OnlyPage r (vpn a) r' v) k k' ∧
      (ok = true → ∃ mem, k'.tables.entry r (vpn a) = some (mapEntry mem (growPerm xperm)))) k := by
  have hnone : ∀ {k'}, Calm c.extra (fun _ _ => False) k k' →
      Calm c.extra (fun r' v => false = true ∧ OnlyPage r (vpn a) r' v) k k' :=
    fun hcalm => hcalm.mono fun _ _ hf => hf.elim
  unfold growPage
  refine getFrame_fill (R := fun _ _ _ => True) me me h hr hempty hroot hlt hup hS ?_ ?_ ?_
  · exact fun k₁ g₁ hready hcalm => Sat.ret ⟨⟨g₁, hready⟩, hnone hcalm, fun hf => nomatch hf⟩
  · exact fun k₁ g₁ hready hcalm => Sat.ret ⟨⟨g₁, hready⟩, hnone hcalm, fun hf => nomatch hf⟩
  · intro mem g₁ k₁ g₂ k₂ _ _ _ hready hcalm hfill
    exact Sat.ret ⟨⟨g₂, hready⟩, hcalm.mono fun _ _ hf => ⟨rfl, hf⟩, fun _ => ⟨mem, hfill.entry⟩⟩

/-- `uvmalloc` maps all pages, or undoes those it mapped. -/
theorem uvmallocLoop_spec (hup : upper (growPerm xperm) = 0) (hS : (growPerm xperm).getLsbD pteS = false)
    (hlo : lo % pgsize = 0) (n : Nat) : ∀ {k : Kernel D} {g : Ledger} {a : Nat}, Ready c g k →
    (k.tables r).isSome → (r = (k.proc me).pagetable ∨ c.extra = some (me, r)) →
    k.tables.EmptyFrom r a → a % pgsize = 0 → lo ≤ a → a + n * pgsize ≤ trapframe →
    Sat (watch c) (uvmallocLoop me r lo newsz xperm n a) (fun res k' => (∃ g', Ready c g' k') ∧
      ((res = newsz ∧ Calm c.extra (Span r a (a + n * pgsize)) k k') ∨
        (res = 0 ∧ Undone (fun _ _ => False) r lo a k k'))) k := by
  induction n with
  | zero =>
    intro k g a h _ _ _ _ _ _
    exact Sat.ret ⟨⟨g, h⟩, Or.inl ⟨rfl, .of_tables (fun _ => rfl) rfl rfl⟩⟩
  | succ n ih =>
    intro k g a h hr hroot hempty hal hle hlim
    have hlt : a < trapframe := by
      unfold pgsize at hlim
      omega
    have haddr := addr_vpn hal (lt_trans hlt (by decide))
    rw [uvmallocLoop_succ]
    apply Sat.seq
    apply (growPage_spec hup hS h hr hroot (hempty _ (not_special_of_lt hal hlt) haddr.ge) hlt).mono
    rintro ok k₁ ⟨⟨g₁, hready⟩, hcalm, -⟩
    have hr₁ := (hcalm.tables r).trans hr
    split
    · next hok =>
        have hempty₁ : k₁.tables.EmptyFrom r (a + pgsize) := by
          intro v hv ha
          refine hcalm.empty r v ?_ (hempty v hv (by omega))
          rintro ⟨-, -, rfl⟩
          rw [haddr] at ha
          unfold pgsize at ha
          omega
        have hroot₁ : r = (k₁.proc me).pagetable ∨ c.extra = some (me, r) := by
          rw [(hcalm.procs me).pagetable]
          exact hroot
        apply (ih hready hr₁ hroot₁ hempty₁ (by unfold pgsize at *; omega)
          (by omega) (by unfold pgsize at *; omega)).mono
        rintro res k₂ ⟨hready₂, ⟨rfl, hcalm₂⟩ | ⟨rfl, hundo⟩⟩
        · refine ⟨hready₂, Or.inl ⟨rfl, (hcalm.mono ?_).trans (hcalm₂.mono ?_)⟩⟩
          · rintro r' v ⟨-, rfl, rfl⟩
            refine ⟨rfl, haddr.ge, ?_⟩
            rw [haddr]
            unfold pgsize
            omega
          · rintro r' v ⟨rfl, h₁, h₂⟩
            refine ⟨rfl, by omega, ?_⟩
            unfold pgsize at *
            omega
        · refine ⟨hready₂, Or.inr ⟨rfl, .cons hcalm hundo ?_⟩⟩
          rintro r' v ⟨-, rfl, rfl⟩
          refine Or.inr ⟨rfl, by omega, ?_⟩
          rw [haddr]
          unfold pgsize
          omega
    · next hok =>
        -- memory ran out: the pages filled so far are given back
        apply Sat.seq
        apply (uvmdealloc_spec (watch_allowed id) hready hr₁ hlt.le).mono
        rintro _ k₂ ⟨hready₂, -, hclear⟩
        rw [pgroundup_of_aligned hlo, pgroundup_of_aligned hal] at hclear
        refine Sat.ret ⟨hready₂, Or.inr ⟨rfl, ?_, fun v h₁ h₂ => hclear.cleared v ⟨h₁, h₂⟩⟩⟩
        exact (hcalm.weaken.mono fun _ _ hf => hok hf.1).trans hclear.calm

/-- **`uvmalloc`** fills the pages between the two sizes, or none. -/
theorem uvmalloc_spec (hup : upper (growPerm xperm) = 0) (hS : (growPerm xperm).getLsbD pteS = false)
    (h : Ready c g k) (hr : (k.tables r).isSome) (hroot : r = (k.proc me).pagetable ∨ c.extra = some (me, r))
    (hempty : k.tables.EmptyFrom r (pgroundup oldsz)) (hle : newsz ≤ trapframe) :
    Sat (watch c) (uvmalloc me r oldsz newsz xperm) (fun res k' => (∃ g', Ready c g' k') ∧
      ((res = max oldsz newsz ∧ Calm c.extra (Span r (pgroundup oldsz) (pgroundup newsz)) k k') ∨
        (res = 0 ∧ Calm none (fun _ _ => False) k k'))) k := by
  unfold uvmalloc
  split
  · next hlt =>
      exact Sat.ret ⟨⟨g, h⟩, Or.inl ⟨(max_eq_left hlt.le).symm, .of_tables (fun _ => rfl) rfl rfl⟩⟩
  · next hge =>
      have hmono := pgroundup_mono (Nat.not_lt.mp hge)
      have hfit : pgroundup oldsz + (pgroundup newsz - pgroundup oldsz) / pgsize * pgsize =
          pgroundup newsz := by
        have h₁ := pgroundup_aligned oldsz
        have h₂ := pgroundup_aligned newsz
        unfold pgsize at *
        omega
      apply (uvmallocLoop_spec hup hS (pgroundup_aligned oldsz) _ h hr hroot hempty
        (pgroundup_aligned oldsz) le_rfl (by rw [hfit]; exact pgroundup_le hle)).mono
      rw [hfit]
      rintro res k₁ ⟨hready, ⟨rfl, hcalm⟩ | ⟨rfl, hundo⟩⟩
      · exact ⟨hready, Or.inl ⟨(max_eq_right (Nat.not_lt.mp hge)).symm, hcalm⟩⟩
      · exact ⟨hready, Or.inr ⟨rfl, hundo.calm⟩⟩

end Grow

/-! ## Copying -/

section Copy

variable [SwapStore D] {R : View D} {me child : ProcId} {old new i : Nat} {e : Pte}

/-- The page to be copied is brought into memory. -/
theorem uvmcopyFetch_spec (h : Ready c g k) (hold : (k.proc me).pagetable = old)
    (hr : (k.tables old).isSome) (hsz : (k.proc me).sz ≤ trapframe)
    (he : k.tables.entry old (vpn i) = some e) :
    Sat (watch c) (uvmcopyFetch me old i e) (fun ok k' => (∃ g', Ready c g' k') ∧
      Calm c.extra (OnlyPage old (vpn i)) k k' ∧ (Reliable R → Keeps R k k') ∧
      (ok = true → ∃ e', k'.tables.entry old (vpn i) = some e' ∧ e'.getLsbD pteV = true)) k := by
  subst hold
  unfold uvmcopyFetch
  split
  · next hV =>
      exact Sat.ret ⟨⟨g, h⟩, .of_tables (fun _ => rfl) rfl rfl, fun _ _ _ _ _ hp => hp, fun _ => ⟨e, he, hV⟩⟩
  · apply Sat.seq
    apply (vmfault_spec (R := R) i h hr hsz).mono
    intro pa k₁ hfault
    refine Sat.ret ⟨hfault.ready, hfault.calm, hfault.keeps, ?_⟩
    intro hne
    obtain ⟨e', he', hV', -⟩ := hfault.resident (by simpa using hne)
    exact ⟨e', he', hV'⟩

/-- Page `v` of `new` became resident as a copy of the resident page behind the entry `e`. -/
structure CopiedFrom (R : View D) (new : Nat) (v : Vpn) (e : Pte) (k k' : Kernel D) : Prop where
  entry : ∃ e', k'.tables.entry new v = some e' ∧ e'.getLsbD pteV = true ∧ SameFlags e e'
  others : Reliable R → ∀ r w page, ¬ Special w → ¬ (r = new ∧ w = v) → Holds R k r w page →
    Holds R k' r w page
  content : Holds R k' new v (k.mem (pte2pa e))

/-- Its copy is mapped in the child. -/
theorem uvmcopyPage_spec (h : Ready c g k) (hr : (k.tables new).isSome)
    (hroot : new = (k.proc child).pagetable) (hempty : k.tables.Empty new (vpn i))
    (hal : i % pgsize = 0) (hlt : i < trapframe) (he : k.tables.entry old (vpn i) = some e)
    (hV : e.getLsbD pteV = true) :
    Sat (watch c) (uvmcopyPage me ⟨old, vpn i⟩ new i child) (fun ok k' => (∃ g', Ready c g' k') ∧
      Calm c.extra (fun r v => ok = true ∧ OnlyPage new (vpn i) r v) k k' ∧
      (ok = true → CopiedFrom R new (vpn i) e k k')) k := by
  obtain ⟨hown, hS⟩ := h.inv.pages.resident he (not_special_of_lt hal hlt) hV
  unfold uvmcopyPage
  apply Sat.seq_run (deref_run he)
  refine getFrame_fill (R := R) me child h hr hempty (Or.inl hroot) hlt (upper_flags e) ?_ ?_ ?_ ?_
  · rw [getLsbD_flags (by decide), hS]
  · intro k₁ g₁ hready hcalm
    exact Sat.ret ⟨⟨g₁, hready⟩, hcalm.mono fun _ _ hf => hf.elim, fun hf => by cases hf⟩
  · intro k₁ g₁ hready hcalm
    exact Sat.ret ⟨⟨g₁, hready⟩, hcalm.mono fun _ _ hf => hf.elim, fun hf => by cases hf⟩
  · intro mem g₁ k₁ g₂ k₂ hquiet hready₁ hheld hready hcalm hfill
    refine Sat.ret ⟨⟨g₂, hready⟩, hcalm.mono fun _ _ hf => ⟨rfl, hf⟩, fun _ => ⟨?_, ?_, ?_⟩⟩
    · refine ⟨_, hfill.entry, mapEntry_valid _ _, fun n hn hV _ _ => ?_⟩
      rw [mapEntry_flag _ _ hn hV, getLsbD_flags hn]
    · intro hR r w page hw hrw hp
      have hpage : ∀ r v, g₁ mem ≠ .page r v := by
        rw [hheld]
        simp
      have hset : Keeps R k₁ (k₁.setMem mem (k₁.mem (pte2pa e))) :=
        hready₁.inv.keeps_of_mem hpage (fun a ha => update_of_ne ha _ _) rfl rfl
      exact hfill.others hR r w page hw hrw (hset r w page hw (hquiet.content hR r w page hw hp))
    · -- the frame that was copied may be the very one that was handed out
      obtain ⟨haligned, -, hhi⟩ := hready₁.inv.free.frame mem (by rw [hheld]; simp)
      have hmem : (k₁.setMem mem (k₁.mem (pte2pa e))).mem (pte2pa (mapEntry mem (pteFlags e))) =
          k.mem (pte2pa e) := by
        rw [pte2pa_mapEntry haligned hhi (upper_flags e)]
        show update k₁.mem mem (k₁.mem (pte2pa e)) mem = _
        rw [update_self]
        exact hquiet.mem _ (by rw [hown]; simp)
      rw [← hmem]
      exact hfill.own

/-- After a failure the pages of the child are unmapped. -/
theorem uvmcopyErr_spec {X : Nat → Vpn → Prop} (h : Ready c g k₁) (hr : (k₁.tables new).isSome)
    (hcalm : Calm c.extra X k k₁) (hal : i % pgsize = 0) (hle : i ≤ trapframe) :
    Sat (watch c) (uvmcopyErr new i) (fun res k' => (∃ g', Ready c g' k') ∧ res = -1 ∧
      Undone X new 0 i k k') k₁ := by
  have hfit : 0 + i / pgsize * pgsize = i := by
    unfold pgsize at *
    omega
  unfold uvmcopyErr
  apply Sat.seq
  apply (uvmunmap_spec (watch_allowed id) h hr rfl (by rw [hfit]; exact hle)).mono
  rintro _ k₂ ⟨hready, hclear⟩
  refine Sat.ret ⟨hready, rfl, hcalm.weaken.trans hclear.calm, fun v h₁ h₂ => hclear.cleared v ⟨h₁, ?_⟩⟩
  rw [hfit]
  exact h₂

/-- A parent and a child whose pages from `i` on are still to be copied. -/
structure Copying (c : Ctx) (me child : ProcId) (old new i : Nat) (k : Kernel D) : Prop where
  ready : ∃ g, Ready c g k
  parent : (k.proc me).pagetable = old
  table : (k.tables old).isSome
  size : (k.proc me).sz ≤ trapframe
  root : new = (k.proc child).pagetable
  fresh : (k.tables new).isSome
  ne : new ≠ old
  empty : k.tables.EmptyFrom new i
  aligned : i % pgsize = 0

namespace Copying

omit [SwapStore D] in
theorem empty_here (h : Copying c me child old new i k) (hlt : i < trapframe) : k.tables.Empty new (vpn i) :=
  h.empty _ (not_special_of_lt h.aligned hlt) (addr_vpn h.aligned (lt_trans hlt (by decide))).ge

omit [SwapStore D] in
/-- A turn is over. -/
theorem next (h : Copying c me child old new i k) (hlt : i < trapframe) (hready : ∃ g, Ready c g k₁)
    (hcalm : Calm c.extra (fun r v => (r = old ∨ r = new) ∧ v = vpn i) k k₁) :
    Copying c me child old new (i + pgsize) k₁ := by
  have haddr := addr_vpn h.aligned (lt_trans hlt (by decide))
  have hpt := fun q => (hcalm.procs q).pagetable
  refine ⟨hready, (hpt me).trans h.parent, (hcalm.tables _).trans h.table, ?_, h.root.trans (hpt child).symm,
    (hcalm.tables _).trans h.fresh, h.ne, fun v hv ha => ?_, ?_⟩
  · rw [(hcalm.procs me).sz]
    exact h.size
  · refine hcalm.empty new v ?_ (h.empty v hv (by omega))
    rintro ⟨-, rfl⟩
    rw [haddr] at ha
    unfold pgsize at ha
    omega
  · have := h.aligned
    unfold pgsize at *
    omega

end Copying

/-- One turn of `uvmcopy`. -/
theorem uvmcopyTurn_spec (h : Copying c me child old new i k) (hlt : i < trapframe) :
    Sat (watch c) (uvmcopyTurn me old new i child) (fun ok k' => (∃ g', Ready c g' k') ∧
      Calm c.extra (fun r v => (r = old ∨ ok = true ∧ r = new) ∧ v = vpn i) k k') k := by
  obtain ⟨g, hready⟩ := h.ready
  obtain ⟨t, ht⟩ := Option.isSome_iff_exists.mp h.table
  unfold uvmcopyTurn
  apply Sat.seq_run (walk_run (lt_trans hlt (by decide)) ht)
  cases he : k.tables.entry old (vpn i) with
  | none => exact Sat.ret ⟨⟨g, hready⟩, .of_tables (fun _ => rfl) rfl rfl⟩
  | some e =>
    apply Sat.seq_run (deref_run (k := k) (p := ⟨old, vpn i⟩) he)
    split
    · exact Sat.ret ⟨⟨g, hready⟩, .of_tables (fun _ => rfl) rfl rfl⟩
    · apply Sat.seq
      apply (uvmcopyFetch_spec (R := fun _ _ _ => True) hready h.parent h.table h.size he).mono
      rintro present k₁ ⟨⟨g₁, hready₁⟩, hcalm, -, hpresent⟩
      cases present with
      | false => exact Sat.ret ⟨⟨g₁, hready₁⟩, hcalm.mono fun r v hf => ⟨.inl hf.1, hf.2⟩⟩
      | true =>
        obtain ⟨e', he', hV'⟩ := hpresent rfl
        apply (uvmcopyPage_spec (R := fun _ _ _ => True) hready₁ ((hcalm.tables new).trans h.fresh)
          (h.root.trans (hcalm.procs child).pagetable.symm)
          (hcalm.empty new _ (fun hf => h.ne hf.1) (h.empty_here hlt)) h.aligned hlt he' hV').mono
        rintro copied k₂ ⟨hready₂, hcalm₂, -⟩
        refine ⟨hready₂, (hcalm.mono ?_).trans (hcalm₂.mono ?_)⟩
        · exact fun r v hf => ⟨.inl hf.1, hf.2⟩
        · exact fun r v hf => ⟨.inr ⟨hf.1, hf.2.1⟩, hf.2.2⟩

/-- All turns of `uvmcopy`, or those up to a failure, undone. -/
theorem uvmcopyLoop_spec (n : Nat) : ∀ {k : Kernel D} {i : Nat}, Copying c me child old new i k →
    i + n * pgsize = hi → hi ≤ trapframe →
    Sat (watch c) (uvmcopyLoop me old new child n i) (fun res k' => (∃ g', Ready c g' k') ∧
      ((res = 0 ∧ Calm c.extra (fun r v => Span old 0 hi r v ∨ Span new 0 hi r v) k k') ∨
        (res = -1 ∧ Undone (Span old 0 hi) new 0 i k k'))) k := by
  induction n with
  | zero =>
    intro k i h _ _
    exact Sat.ret ⟨h.ready, Or.inl ⟨rfl, .of_tables (fun _ => rfl) rfl rfl⟩⟩
  | succ n ih =>
    intro k i h hhi hlim
    have hlt : i < trapframe := by
      unfold pgsize at hhi
      omega
    have hv : (vpn i).addr < hi ∧ (vpn i).addr < i + pgsize := by
      rw [addr_vpn h.aligned (lt_trans hlt (by decide))]
      unfold pgsize at *
      omega
    rw [uvmcopyLoop_succ]
    apply Sat.seq
    apply (uvmcopyTurn_spec h hlt).mono
    rintro ok k₁ ⟨⟨g₁, hready⟩, hcalm⟩
    cases ok with
    | false =>
      apply (uvmcopyErr_spec hready ((hcalm.tables new).trans h.fresh) (hcalm.mono ?_) h.aligned hlt.le).mono
      · exact fun _ _ ⟨h₁, h₂⟩ => ⟨h₁, Or.inr h₂⟩
      · rintro r v ⟨rfl | ⟨hf, -⟩, rfl⟩
        · exact ⟨rfl, Nat.zero_le _, hv.1⟩
        · cases hf
    | true =>
      have hturn := hcalm.mono fun r v hf => (⟨hf.1.imp_right And.right, hf.2⟩ : (r = old ∨ r = new) ∧ v = vpn i)
      apply (ih (h.next hlt ⟨g₁, hready⟩ hturn) (by unfold pgsize at *; omega) hlim).mono
      rintro res k₂ ⟨hready₂, ⟨rfl, hcalm₂⟩ | ⟨rfl, hundo⟩⟩
      · refine ⟨hready₂, Or.inl ⟨rfl, (hturn.mono ?_).trans hcalm₂⟩⟩
        rintro r v ⟨hr, rfl⟩
        exact hr.imp (fun hr => ⟨hr, Nat.zero_le _, hv.1⟩) fun hr => ⟨hr, Nat.zero_le _, hv.1⟩
      · refine ⟨hready₂, Or.inr ⟨rfl, .cons hturn hundo ?_⟩⟩
        rintro r v ⟨hr, rfl⟩
        exact hr.imp (fun hr => ⟨hr, Nat.zero_le _, hv.1⟩) fun hr => ⟨hr, Nat.zero_le _, hv.2⟩

/-- **`uvmcopy`** fills pages of the child only; when it fails the child has none. -/
theorem uvmcopy_spec {sz : Nat} (h : Ready c g k) (hold : (k.proc me).pagetable = old)
    (hro : (k.tables old).isSome) (hsz : (k.proc me).sz ≤ trapframe)
    (hnew : new = (k.proc child).pagetable) (hrn : (k.tables new).isSome) (hne : new ≠ old)
    (hempty : k.tables.EmptyFrom new 0) (hle : sz ≤ trapframe) :
    Sat (watch c) (uvmcopy me old new sz child) (fun res k' => (∃ g', Ready c g' k') ∧
      ((res = 0 ∧ Calm c.extra (fun r v => Span old 0 (pgroundup sz) r v ∨
          Span new 0 (pgroundup sz) r v) k k') ∨
        (res = -1 ∧ Calm none (Span old 0 (pgroundup sz)) k k'))) k := by
  apply (uvmcopyLoop_spec _ ⟨⟨g, h⟩, hold, hro, hsz, hnew, hrn, hne, hempty, rfl⟩
    (pgroundup_div_mul sz) (pgroundup_le hle)).mono
  rintro res k₁ ⟨hready, hok | ⟨hres, hundo⟩⟩
  · exact ⟨hready, Or.inl hok⟩
  · exact ⟨hready, Or.inr ⟨hres, hundo.calm⟩⟩

end Copy

end Xv6
