import Xv6.Vm.MapSpec

/-!
# Page faults

A page becomes resident when its entry is written and its frame registered. `vmfault` does this for a
page that was swapped out and for a page that was never allocated; in both cases no page of any
process changes its content.

`Calm` is the frame condition of everything that works on whole address spaces: the processes keep
their tables, the trampoline and trapframe entries stay, and pages outside a given set stay empty.
-/

namespace Xv6

open Function Tables Kernel

variable {D : Type} {k k' k₁ : Kernel D} {c : Ctx} {g g₁ : Ledger} {r pa va : Nat} {v : Vpn} {e e' : Pte}

open TraceM

/-! ## Calm changes -/

/-- What changes of user pages leave alone: only the pages in `X` may stop being empty, and the pages of
the table `x` under construction stay where they are. -/
structure Calm (x : Option (ProcId × Nat)) (X : Nat → Vpn → Prop) (k k' : Kernel D) : Prop where
  procs : ∀ p, (k.proc p).SameButStats (k'.proc p)
  image : k'.image = k.image
  tables : ∀ r, (k'.tables r).isSome = (k.tables r).isSome
  special : ∀ r v e, Special v → k'.tables.entry r v = some e → e ≠ 0 → k.tables.entry r v = some e
  empty : ∀ r v, ¬ X r v → k.tables.Empty r v → k'.tables.Empty r v
  extra : ∀ p r v e, x = some (p, r) → k.tables.entry r v = some e → e ≠ 0 →
    k'.tables.entry r v = some e

namespace Calm

variable {x : Option (ProcId × Nat)} {X Y : Nat → Vpn → Prop} {k'' : Kernel D}

theorem trans (h : Calm x X k k') (h' : Calm x X k' k'') : Calm x X k k'' where
  procs p := (h.procs p).trans (h'.procs p)
  image := h'.image.trans h.image
  tables r := (h'.tables r).trans (h.tables r)
  special r v e hv he h0 := h.special r v e hv (h'.special r v e hv he h0) h0
  empty r v hX he := h'.empty r v hX (h.empty r v hX he)
  extra p r v e hx he h0 := h'.extra p r v e hx (h.extra p r v e hx he h0) h0

theorem mono (h : Calm x X k k') (hXY : ∀ r v, X r v → Y r v) : Calm x Y k k' :=
  ⟨h.procs, h.image, h.tables, h.special,
    fun r v hY he => h.empty r v (fun hX => hY (hXY r v hX)) he, h.extra⟩

theorem weaken (h : Calm x X k k') : Calm none X k k' :=
  ⟨h.procs, h.image, h.tables, h.special, h.empty, fun _ _ _ _ hx => by cases hx⟩

/-- A change that leaves the tables alone. -/
theorem of_tables (hprocs : ∀ p, (k.proc p).SameButStats (k'.proc p)) (himage : k'.image = k.image)
    (htab : k'.tables = k.tables) : Calm x X k k' := by
  refine ⟨hprocs, himage, ?_, ?_, ?_, ?_⟩
  · intro r
    rw [htab]
  · intro r v e _ he _
    rw [htab] at he
    exact he
  · intro r v _ he
    rw [htab]
    exact he
  · intro p r v e _ he _
    rw [htab]
    exact he

/-- One empty user page in `X` is written. -/
theorem of_setEntry (hprocs : ∀ p, (k.proc p).SameButStats (k'.proc p)) (himage : k'.image = k.image)
    (htab : k'.tables = k.tables.setEntry r v e') (hv : ¬ Special v) (hX : X r v)
    (hx : ∀ p, x = some (p, r) → k.tables.Empty r v) : Calm x X k k' := by
  refine ⟨hprocs, himage, ?_, ?_, ?_, ?_⟩
  · intro r'
    rw [htab, isSome_setEntry]
  · intro r' w e₀ hw he' _
    rw [htab, entry_setEntry, if_neg] at he'
    · exact he'
    · rintro ⟨-, rfl⟩
      exact hv hw
  · intro r' w hX' he e₀ he'
    rw [htab, entry_setEntry, if_neg] at he'
    · exact he e₀ he'
    · rintro ⟨rfl, rfl⟩
      exact hX' hX
  · intro p r' w e₀ hp he₀ h0
    rw [htab, entry_setEntry, if_neg]
    · exact he₀
    · rintro ⟨rfl, rfl⟩
      exact h0 (hx p hp e₀ he₀)

end Calm

theorem Quiet.calm [SwapStore D] {R : View D} (h : Quiet R c g k g₁ k₁) {X : Nat → Vpn → Prop} :
    Calm c.extra X k k₁ := by
  refine ⟨h.procs, h.image, h.tables, ?_, fun r v _ he => h.empty he,
    fun p r v e hx he _ => h.extra p r v e hx he⟩
  intro r v e hv he h0
  cases h₀ : k.tables.entry r v with
  | none =>
    rcases h.absent r v h₀ with h₁ | h₁
    · rw [h₁] at he
      cases he
    · rw [h₁] at he
      exact absurd (Option.some.inj he).symm h0
  | some e₀ =>
    rw [h.special r v e₀ h₀ hv] at he
    exact he

/-! ## Contents -/

/-- Every user page keeps its content. -/
def Keeps (R : View D) (k k' : Kernel D) : Prop :=
  ∀ r v page, ¬ Special v → Holds R k r v page → Holds R k' r v page

theorem Keeps.trans {R : View D} {k'' : Kernel D} (h : Keeps R k k') (h' : Keeps R k' k'') :
    Keeps R k k'' :=
  fun r v page hv hp => h' r v page hv (h r v page hv hp)

/-- Memory that is no user page may change. -/
theorem Inv.keeps_of_mem {R : View D} (h : Inv c g k) (hpa : ∀ r v, g pa ≠ .page r v)
    (hmem : ∀ a, a ≠ pa → k'.mem a = k.mem a) (htab : k'.tables = k.tables)
    (hdisk : k'.disk = k.disk) : Keeps R k k' := by
  intro r v page hv hp
  unfold Holds at hp ⊢
  rw [htab, hdisk]
  apply hp.transfer
  · intro e he hV
    apply hmem
    rintro rfl
    exact hpa r v (h.pages.resident he hv hV).1
  · intro e s _ _ _ _ hR
    exact hR

/-- The pages that do not become resident keep their content when another one does, in a held frame. -/
theorem Inv.holds_of_fill {R : View D} (h : Inv c g k) (hheld : g (pte2pa e') = .held)
    (htab : k'.tables = k.tables.setEntry r v e')
    (hmem : ∀ a, a ≠ pte2pa e' → k'.mem a = k.mem a)
    (hdisk : ∀ (s : Fin maxSwap) page, (k.swaptable s).used = true →
      ¬ ((k.swaptable s).pageTable = r ∧ (k.swaptable s).va = v.addr) →
      R k.disk s page → R k'.disk s page)
    {r' : Nat} {w : Vpn} {page : Page} (hw : ¬ Special w) (hrw : ¬ (r' = r ∧ w = v))
    (hp : Holds R k r' w page) : Holds R k' r' w page := by
  unfold Holds at hp ⊢
  rw [htab, entry_setEntry, if_neg hrw]
  apply hp.transfer
  · intro e₀ h₀ hV₀
    apply hmem
    intro heq
    rw [← heq, (h.pages.resident h₀ hw hV₀).1] at hheld
    cases hheld
  · intro e₀ s h₀ hV₀ hS₀ hs hRs
    obtain ⟨s', hs', hused, hpt, hva⟩ := h.pages.swapped h₀ hV₀ hS₀
    have hss : s' = s := Fin.ext (by exact_mod_cast hs'.symm.trans hs)
    subst hss
    apply hdisk s' page hused
    · rintro ⟨h₁, h₂⟩
      exact hrw ⟨hpt.symm.trans h₁, Vpn.addr_injective (hva.symm.trans h₂)⟩
    · exact hRs

/-- A page becomes resident in a held frame that has its content. -/
theorem Inv.keeps_of_fill {R : View D} (h : Inv c g k) (he : k.tables.entry r v = some e)
    (hV' : e'.getLsbD pteV = true) (hheld : g (pte2pa e') = .held)
    (htab : k'.tables = k.tables.setEntry r v e')
    (hmem : ∀ a, a ≠ pte2pa e' → k'.mem a = k.mem a)
    (hdisk : ∀ (s : Fin maxSwap) page, (k.swaptable s).used = true →
      ¬ ((k.swaptable s).pageTable = r ∧ (k.swaptable s).va = v.addr) →
      R k.disk s page → R k'.disk s page)
    (hnew : ∀ page, Holds R k r v page → page = k'.mem (pte2pa e')) : Keeps R k k' := by
  intro r' w page hw hp
  by_cases hrw : r' = r ∧ w = v
  · obtain ⟨rfl, rfl⟩ := hrw
    have hpage := hnew page hp
    unfold Holds
    rw [htab, entry_setEntry, if_pos ⟨rfl, rfl⟩, he, Option.map_some, content_valid hV']
    exact hpage
  · exact h.holds_of_fill hheld htab hmem hdisk hw hrw hp

/-! ## Filling a page -/

section Fill

variable {p : ProcId} {i : Fin maxFrames}

/-- **A page becomes resident**: its entry maps a held frame and a free frame-table entry names it. -/
theorem Inv.fill (h : Inv c g k) (he : k.tables.entry r (vpn va) = some e)
    (hV : e.getLsbD pteV = false) (hV' : e'.getLsbD pteV = true) (hpa : pte2pa e' = pa)
    (hheld : g pa = .held) (hroot : r = (k.proc p).pagetable ∨ c.extra = some (p, r))
    (hal : va % pgsize = 0) (hlt : va < trapframe) (hi : (k.frametable i).used = false)
    (himage : k'.image = k.image) (hfree : k'.freelist = k.freelist)
    (htab : k'.tables = k.tables.setEntry r (vpn va) e')
    (hft : k'.frametable = update k.frametable i ⟨true, some p, va, pa⟩)
    (hactive : k'.activeFrames = k.activeFrames + 1)
    (hpages : PagesOk c.stale (update g pa (.page r (vpn va)))
      (k.tables.setEntry r (vpn va) e') k'.swaptable)
    (hprocs : ∀ q, (k.proc q).SameButStats (k'.proc q)) :
    Inv c (update g pa (.page r (vpn va))) k' := by
  subst hpa
  have hpt := fun q => (hprocs q).pagetable
  have htf := fun q => (hprocs q).trapframe
  refine ⟨?_, ?_, ?_, ?_, ?_, ?_⟩
  · rw [himage, hfree]
    exact h.free.reown (by rw [hheld]; simp) (by rw [hheld]; simp)
  · rw [htab]
    exact (h.tree.reown (by rw [hheld]; rfl)).setEntry _ _
  · simp only [htf]
    exact h.trap.reown (by rw [hheld]; simp)
  · rw [htab]
    exact hpages
  · simp only [htab, hft, hactive, hpt]
    apply h.frames.map he hV hV' hroot hal hlt hi
    intro r' w e₀ h₀ hw hV₀ heq
    rw [← heq, (h.pages.resident h₀ hw hV₀).1] at hheld
    cases hheld
  · intro q r' hx q'
    rw [hpt]
    exact h.extra q r' hx q'

theorem Kernel.registerFrame_sameButStats (q : ProcId) :
    (k.proc q).SameButStats ((k.registerFrame i pa p va).proc q) :=
  updProc_sameButStats (k := k) (f := Proc.moreResident) (fun _ => by rfl) p q

/-- Mapping a page into an empty entry and registering it. -/
theorem Inv.register (h : Inv c g k) (he : k.tables.entry r (vpn va) = some 0)
    (hV' : e'.getLsbD pteV = true) (hS' : e'.getLsbD pteS = false) (hpa : pte2pa e' = pa)
    (hheld : g pa = .held) (hroot : r = (k.proc p).pagetable ∨ c.extra = some (p, r))
    (hal : va % pgsize = 0) (hlt : va < trapframe) (hi : (k.frametable i).used = false) :
    Inv c (update g pa (.page r (vpn va)))
      ((k.setEntry r (vpn va) e').registerFrame i pa p va) := by
  refine h.fill he (getLsbD_zero_entry _) hV' hpa hheld hroot hal hlt hi rfl rfl rfl rfl rfl ?_ ?_
  · subst hpa
    exact h.pages.map he (not_special_of_lt hal hlt) hV' hS' hheld
  · exact registerFrame_sameButStats (k := k.setEntry _ _ _)

end Fill

/-! ## Giving a page back -/

/-- The kernel after `kfree` of a page that the frame table does not know. -/
def Kernel.returned (k : Kernel D) (pa : Nat) : Kernel D :=
  (k.setMem pa (junk 1)).setFreelist (pa :: k.freelist)

@[simp] theorem Kernel.returned_tables : (k.returned pa).tables = k.tables := rfl

/-- Freeing a page that is no user page. -/
theorem kfree_unregistered (h : Ready c g k) (hidle : g pa ≠ .idle)
    (hpage : ∀ r v, g pa ≠ .page r v) :
    kfree pa k = .ok ((), k.returned pa, []) := by
  obtain ⟨hal, hlo, hhi⟩ := h.inv.free.frame pa hidle
  have hrun := kfree_run hal hlo hhi h.lock
  rw [h.inv.dropFrame_of_not_page hpage] at hrun
  exact hrun

theorem kfree_held (h : Ready c g k) (hpa : g pa = .held) :
    kfree pa k = .ok ((), k.returned pa, []) ∧
      Ready c (update g pa .free) (k.returned pa) := by
  refine ⟨kfree_unregistered h (by rw [hpa]; simp) (by rw [hpa]; simp), ?_, h.lock⟩
  refine h.inv.giveLoose (by rw [hpa]; rfl) ?_ rfl rfl rfl rfl rfl
  exact h.inv.free.push (by rw [hpa]; simp) (by rw [hpa]; simp)

/-- Registration succeeds when the allocation before it left room in the table. -/
theorem frametableAlloc_spec [SwapStore D] (me p : ProcId) (va : Nat) (h : Ready c g k)
    (hactive : k.activeFrames < maxFrames) (hpa : pa ≠ 0) :
    ∃ i, (k.frametable i).used = false ∧ ∀ k' : Kernel D, k'.framelock = k.framelock →
      k'.frametable = k.frametable →
      frametableAlloc me pa p va k' = .ok ((), k'.registerFrame i pa p va, []) := by
  obtain ⟨j, hj⟩ := h.inv.exists_unused hactive
  obtain ⟨i, hi⟩ := firstIdx_isSome (p := fun i => !(k.frametable i).used) (i := j) (by simp [hj])
  refine ⟨i, by simpa using firstIdx_holds hi, ?_⟩
  intro k' hlock hft
  rw [← hft] at hi
  exact frametableAlloc_run (hlock.trans h.lock) hpa hi

/-! ## `swapin` -/

variable [SwapStore D]

/-- The kernel after slot `s` was read into `pa` and given up. -/
def Kernel.swappedIn (k : Kernel D) (me : ProcId) (pa : Nat) (s : Fin maxSwap) (page : Page) (d : D) :
    Kernel D :=
  ((k.setMem pa page).setDisk (SwapStore.noteRead me d)).freeSlot s

theorem swapFree_run {idx : Int} {s : Fin maxSwap} (hs : idx = s) :
    swapFree idx k = .ok ((), k.freeSlot s, []) := by
  unfold swapFree
  rw [slotOf_eq_some.mpr hs]
  rfl

/-- `swapin` of a used slot does not reach its own panic. -/
theorem swapin_spec {W : Watch Panic (Eviction D)} (hW : ∀ e, W.allowed (.disk e)) (me : ProcId)
    {idx : Int} {s : Fin maxSwap} (hidx : idx = s) (hs : (k.swaptable s).used = true) :
    Sat W (swapin me pa idx) (fun _ k' => ∃ page d,
      SwapStore.swapInPage (k.caller me) (k.mem pa) s k.disk = .ok (page, d) ∧
        k' = k.swappedIn me pa s page d) k := by
  unfold swapin
  rw [slotOf_eq_some.mpr hidx]
  apply Sat.seq_get
  rw [if_neg (by simp [hs])]
  cases hin : SwapStore.swapInPage (k.caller me) (k.mem pa) s k.disk with
  | error err => exact Sat.of_error (bind_of_error (onDisk_panic hin)) (hW err)
  | ok res =>
    obtain ⟨page, d⟩ := res
    apply Sat.seq_run (onDisk_run hin)
    apply Sat.seq_update
    apply Sat.seq_update
    exact Sat.of_ok (swapFree_run hidx) ⟨page, d, rfl, rfl⟩

/-! ## Mapping and registering -/

/-- The pages a single fault may fill. -/
def OnlyPage (r : Nat) (v : Vpn) : Nat → Vpn → Prop := fun r' w => r' = r ∧ w = v

/-- A held page was given back; nothing else happened. -/
structure Dropped (R : View D) (c : Ctx) (k k' : Kernel D) : Prop where
  ready : ∃ g', Ready c g' k'
  calm : ∀ {X}, Calm c.extra X k k'
  keeps : Reliable R → Keeps R k k'

/-- Page `v` of the table `r` became resident with the entry `e`. -/
structure Filled (R : View D) (c : Ctx) (r : Nat) (v : Vpn) (e : Pte) (k k' : Kernel D) : Prop where
  ready : ∃ g', Ready c g' k'
  calm : Calm c.extra (OnlyPage r v) k k'
  keeps : Reliable R → k.mem (pte2pa e) = junk 0 → Keeps R k k'
  entry : k'.tables.entry r v = some e

/-- The pages elsewhere keep their content, and the new page has that of its frame. -/
structure FilledWith (R : View D) (c : Ctx) (r : Nat) (v : Vpn) (e : Pte) (k k' : Kernel D) : Prop
    extends Filled R c r v e k k' where
  others : Reliable R → ∀ r' w page, ¬ Special w → ¬ (r' = r ∧ w = v) → Holds R k r' w page →
    Holds R k' r' w page
  own : Holds R k' r v (k.mem (pte2pa e))

/-- **Mapping a held frame at an empty page**, as `uvmalloc`, `vmfault` and `uvmcopy` do it: `mappages`,
then `kfree` of the frame when that failed, or else its registration. -/
theorem mappages_register {α : Type} {R : View D} {Q : α → Kernel D → Prop} {fail succ : KM D α}
    {perm : Pte} (me p : ProcId) (h : Ready c g k) (hheld : g pa = .held)
    (hactive : k.activeFrames < maxFrames) (hr : (k.tables r).isSome)
    (hempty : k.tables.Empty r (vpn va)) (hroot : r = (k.proc p).pagetable ∨ c.extra = some (p, r))
    (hlt : va < trapframe) (hup : upper perm = 0) (hS : perm.getLsbD pteS = false)
    (hfail : ∀ k', Dropped R c k k' → Sat (watch c) fail Q k')
    (hsucc : ∀ k', FilledWith R c r (vpn va) (mapEntry pa perm) k k' → Sat (watch c) succ Q k') :
    Sat (watch c) (do
      if (← mappages me r va pgsize pa perm) ≠ 0 then
        kfree pa
        fail
      else
        frametableAlloc me pa p va
        succ) Q k := by
  apply Sat.seq
  apply (mappages_spec (R := R) me va pa perm h hr hempty).mono
  rintro res k₁ ⟨g₁, k₂, hready, hquiet, hcase⟩
  have hheld₁ : g₁ pa = .held := by
    rw [hquiet.own pa (by rw [hheld]; simp) (by rw [hheld]; simp), hheld]
  rcases hcase with ⟨rfl, rfl⟩ | ⟨rfl, hal, he, rfl⟩
  · rw [if_pos (by decide)]
    obtain ⟨hrun, hready'⟩ := kfree_held hready hheld₁
    apply Sat.seq_run hrun
    apply hfail
    refine ⟨⟨_, hready'⟩, ?_, ?_⟩
    · exact hquiet.calm.trans (.of_tables (fun _ => rfl) rfl rfl)
    · intro hR
      refine Keeps.trans (hquiet.content hR) ?_
      have hpage : ∀ r v, g₁ pa ≠ .page r v := by
        rw [hheld₁]
        simp
      refine hready.inv.keeps_of_mem hpage ?_ rfl rfl
      intro a ha
      exact update_of_ne ha _ _
  · rw [if_neg (by decide)]
    obtain ⟨haligned, -, hhi⟩ := hready.inv.free.frame pa (by rw [hheld₁]; simp)
    have hpa : pte2pa (mapEntry pa perm) = pa := pte2pa_mapEntry haligned hhi hup
    have hspecial := not_special_of_lt hal hlt
    obtain ⟨i, hi, hrun⟩ := frametableAlloc_spec me p va hready
      (lt_of_le_of_lt hquiet.active hactive) (hready.inv.ne_zero (by rw [hheld₁]; simp))
    apply Sat.seq_run (hrun (k₂.setEntry r (vpn va) (mapEntry pa perm)) rfl rfl)
    apply hsucc
    have hroot' : r = (k₂.proc p).pagetable ∨ c.extra = some (p, r) := by
      rw [(hquiet.procs p).pagetable]
      exact hroot
    have hS' : (mapEntry pa perm).getLsbD pteS = false := by
      rw [mapEntry_flag _ _ (by decide) (by decide), hS]
    have hinv := hready.inv.register he (mapEntry_valid _ _) hS' hpa hheld₁ hroot' hal hlt hi
    have htab : (Kernel.registerFrame (k₂.setEntry r (vpn va) (mapEntry pa perm)) i pa p va).tables =
      k₂.tables.setEntry r (vpn va) (mapEntry pa perm) := rfl
    have hpage : k₂.mem pa = k.mem pa := hquiet.mem pa (by rw [hheld]; simp)
    have hentry : (Kernel.registerFrame (k₂.setEntry r (vpn va) (mapEntry pa perm)) i pa p va).tables.entry
        r (vpn va) = some (mapEntry pa perm) := by
      rw [htab, entry_setEntry, if_pos ⟨rfl, rfl⟩, he]
      rfl
    refine ⟨⟨⟨_, hinv, hready.lock⟩, ?_, ?_, hentry⟩, ?_, ?_⟩
    · refine hquiet.calm.trans (.of_setEntry ?_ rfl htab hspecial ⟨rfl, rfl⟩ ?_)
      · exact registerFrame_sameButStats (k := k₂.setEntry _ _ _)
      · intro _ _ e₀ he₀
        rw [he] at he₀
        exact (Option.some.inj he₀).symm
    · intro hR hzero
      refine Keeps.trans (hquiet.content hR) ?_
      refine hready.inv.keeps_of_fill he (mapEntry_valid _ _) (by rw [hpa]; exact hheld₁) htab
        (fun _ _ => rfl) (fun _ _ _ _ h => h) ?_
      intro page hold
      unfold Holds at hold
      rw [he, content_empty (getLsbD_zero_entry _) (getLsbD_zero_entry _)] at hold
      rw [hold, ← hzero, hpa]
      exact hpage.symm
    · intro hR r' w page hw hrw hold
      exact hready.inv.holds_of_fill (by rw [hpa]; exact hheld₁) htab (fun _ _ => rfl)
        (fun _ _ _ _ h => h) hw hrw (hquiet.content hR r' w page hw hold)
    · unfold Holds
      rw [hentry, content_valid (mapEntry_valid _ _), hpa]
      exact hpage.symm

/-! ## `vmfault` -/

section Vmfault

variable {R : View D} {me : ProcId}

/-- `PTE_W | PTE_U | PTE_R`, the permissions of a page that is allocated on a fault. -/
def lazyPerm : Pte := bit pteW ||| bit pteU ||| bit pteR

/-- Where a page fault at page `v` of the table `r` can end. The frame returned is mapped there. -/
structure Faulted (R : View D) (c : Ctx) (r : Nat) (v : Vpn) (k : Kernel D) (pa : Nat)
    (k' : Kernel D) : Prop where
  ready : ∃ g', Ready c g' k'
  calm : Calm c.extra (OnlyPage r v) k k'
  keeps : Reliable R → Keeps R k k'
  resident : pa ≠ 0 → ∃ e, k'.tables.entry r v = some e ∧ e.getLsbD pteV = true ∧ pte2pa e = pa ∧
    ((k.tables.Empty r v ∧ e = mapEntry pa lazyPerm) ∨
      ∃ e₀, k.tables.entry r v = some e₀ ∧ e = swapInEntry pa e₀)

omit [SwapStore D] in
/-- Writing to a frame in the hands of the caller. -/
theorem Ready.setMem (h : Ready c g k) (page : Page) : Ready c g (k.setMem pa page) :=
  ⟨⟨h.inv.free, h.inv.tree, h.inv.trap, h.inv.pages, h.inv.frames, h.inv.extra⟩, h.lock⟩

/-- **A page touched for the first time** gets a frame. -/
theorem vmfaultLazy_spec (h : Ready c g k) (hroot : (k.proc me).pagetable = r)
    (hr : (k.tables r).isSome) (hlt : va < trapframe) (hempty : k.tables.Empty r (vpn va)) :
    Sat (watch c) (vmfaultLazy me va) (Faulted R c r (vpn va) k) k := by
  subst hroot
  unfold vmfaultLazy
  apply Sat.seq
  apply (getFrame_spec (R := R) me h).mono
  rintro mem k₁ ⟨⟨g₁, hready, hquiet, -, hgot⟩, hactive⟩
  split
  · next h0 =>
      exact Sat.ret ⟨⟨g₁, hready⟩, hquiet.calm, hquiet.content, fun hf => absurd rfl hf⟩
  · next h0 =>
      obtain ⟨hheld, -⟩ := hgot.held h0
      apply Sat.seq_update
      apply Sat.seq_get
      have hpt : ((k₁.setMem mem (junk 0)).proc me).pagetable = (k.proc me).pagetable :=
        (hquiet.procs me).pagetable
      have hkeep : Reliable R → Keeps R k (k₁.setMem mem (junk 0)) := by
        intro hR
        refine Keeps.trans (hquiet.content hR) ?_
        have hpage : ∀ r v, g₁ mem ≠ .page r v := by
          rw [hheld]
          simp
        exact hready.inv.keeps_of_mem hpage (fun a ha => update_of_ne ha _ _) rfl rfl
      have hcalm : ∀ {X}, Calm c.extra X k (k₁.setMem mem (junk 0)) := fun {X} =>
        hquiet.calm.trans (.of_tables (fun _ => rfl) rfl rfl)
      rw [hpt]
      refine mappages_register (R := R) me me (hready.setMem (junk 0)) hheld (hactive h0)
        ((hquiet.tables _).trans hr) (hquiet.empty hempty) (Or.inl hpt.symm) hlt ?_ ?_ ?_ ?_
      · decide
      · decide
      · intro k₂ hdrop
        refine Sat.ret ⟨hdrop.ready, hcalm.trans hdrop.calm, ?_, fun hf => absurd rfl hf⟩
        exact fun hR => (hkeep hR).trans (hdrop.keeps hR)
      · intro k₂ hfill
        obtain ⟨haligned, -, hhi⟩ := hready.inv.free.frame mem (by rw [hheld]; simp)
        have hpa : pte2pa (mapEntry mem lazyPerm) = mem := pte2pa_mapEntry haligned hhi (by decide)
        refine Sat.ret ⟨hfill.ready, hcalm.trans hfill.calm, ?_, ?_⟩
        · intro hR
          refine (hkeep hR).trans (hfill.keeps hR ?_)
          show update k₁.mem mem (junk 0) (pte2pa (mapEntry mem lazyPerm)) = junk 0
          rw [hpa, update_self]
        · intro _
          exact ⟨_, hfill.entry, mapEntry_valid _ _, hpa, Or.inl ⟨hempty, rfl⟩⟩

/-- The kernel after the page behind slot `s` came back to the frame `pa`. -/
def Kernel.restored (k : Kernel D) (me : ProcId) (r va : Nat) (s : Fin maxSwap) (page : Page) (d : D)
    (e : Pte) (pa : Nat) (i : Fin maxFrames) : Kernel D :=
  { k with
    mem := update k.mem pa page
    swaptable := update k.swaptable s ⟨false, 0, 0, .raid0⟩
    disk := SwapStore.swapDiskFreeSlot s (SwapStore.noteRead me d)
    tables := k.tables.setEntry r (vpn va) (swapInEntry pa e)
    frametable := update k.frametable i ⟨true, some me, va, pa⟩
    activeFrames := k.activeFrames + 1
    proc := ((k.updProc me Proc.countRestored).updProc me Proc.moreResident).proc }

section Restored

variable {s : Fin maxSwap} {page : Page} {d : D} {i : Fin maxFrames}

theorem Kernel.restored_eq : (((k.swappedIn me pa s page d).setEntry r (vpn va)
    (swapInEntry pa e)).updProc me Proc.countRestored).registerFrame i pa me va =
      k.restored me r va s page d e pa i := by
  unfold Kernel.restored Kernel.registerFrame Kernel.updProc Kernel.setFrame Kernel.setEntry
    Kernel.setTables Kernel.swappedIn
  rfl

theorem Kernel.restored_tables : (k.restored me r va s page d e pa i).tables =
    k.tables.setEntry r (vpn va) (swapInEntry pa e) := by
  unfold Kernel.restored
  rfl

theorem Kernel.restored_image : (k.restored me r va s page d e pa i).image = k.image := by
  unfold Kernel.restored
  rfl

theorem Kernel.restored_framelock :
    (k.restored me r va s page d e pa i).framelock = k.framelock := by
  unfold Kernel.restored
  rfl

theorem Kernel.restored_sameButStats (q : ProcId) :
    (k.proc q).SameButStats ((k.restored me r va s page d e pa i).proc q) := by
  have hcount := updProc_sameButStats (k := k) (f := Proc.countRestored) (fun _ => by rfl) me q
  have hmore := updProc_sameButStats (k := k.updProc me Proc.countRestored)
    (f := Proc.moreResident) (fun _ => by rfl) me q
  exact hcount.trans hmore

/-- A page that comes back from its slot. -/
theorem Inv.restore (h : Inv c g k) (he : k.tables.entry (k.proc me).pagetable (vpn va) = some e)
    (hV : e.getLsbD pteV = false) (hS : e.getLsbD pteS = true) (hs : swapIdx e = s)
    (hheld : g pa = .held) (hal : va % pgsize = 0) (hlt : va < trapframe)
    (hi : (k.frametable i).used = false) :
    Inv c (update g pa (.page (k.proc me).pagetable (vpn va)))
      (k.restored me (k.proc me).pagetable va s page d e pa i) := by
  obtain ⟨haligned, -, hhi⟩ := h.free.frame pa (by rw [hheld]; simp)
  have hpa : pte2pa (swapInEntry pa e) = pa := pte2pa_swapInEntry e haligned hhi
  have hne : ∀ a, g a ≠ .held →
      update g pa (.page (k.proc me).pagetable (vpn va)) a = g a := by
    intro a ha
    exact own_update_of_ne rfl (by rw [hheld]; exact ha.symm)
  have hslot : (⟨false, 0, 0, .raid0⟩ : SwapSlot).used = false := rfl
  have hpages := h.pages.releaseSlot he hV hS hs hslot (swapInEntry_not_swapped pa e)
    (fun hf => by rw [swapInEntry_valid] at hf; cases hf)
    (fun _ => by rw [hpa]; exact update_self ..) hne
  have hprocs : ∀ q, (k.proc q).SameButStats
      ((k.restored me (k.proc me).pagetable va s page d e pa i).proc q) :=
    restored_sameButStats
  unfold Kernel.restored at hprocs ⊢
  exact h.fill he hV (swapInEntry_valid pa e) hpa hheld (Or.inl rfl) hal hlt hi rfl rfl rfl rfl rfl
    hpages hprocs

/-- A page that comes back has the content it had. -/
theorem Inv.keeps_of_restore (hR : Reliable R) (h : Inv c g k)
    (he : k.tables.entry (k.proc me).pagetable (vpn va) = some e) (hV : e.getLsbD pteV = false)
    (hS : e.getLsbD pteS = true) (hs : swapIdx e = s) (hheld : g pa = .held)
    (hin : SwapStore.swapInPage (k.caller me) (k.mem pa) s k.disk = .ok (page, d)) :
    Keeps R k (k.restored me (k.proc me).pagetable va s page d e pa i) := by
  obtain ⟨haligned, -, hhi⟩ := h.free.frame pa (by rw [hheld]; simp)
  have hpa : pte2pa (swapInEntry pa e) = pa := pte2pa_swapInEntry e haligned hhi
  obtain ⟨hslot, hva, -⟩ := h.pages.only_slot he hV hS hs
  unfold Kernel.restored
  refine h.keeps_of_fill he (swapInEntry_valid pa e) (by rw [hpa]; exact hheld) rfl ?_ ?_ ?_
  · intro a ha
    rw [hpa] at ha
    exact update_of_ne ha _ _
  · intro t q _ hne hRt
    have hts : t ≠ s := by
      rintro rfl
      exact hne ⟨hslot, hva⟩
    exact hR.free_other hts (hR.noteRead (hR.back_other hin hRt))
  · intro q hq
    unfold Holds at hq
    rw [he, content_swapped hV hS] at hq
    obtain ⟨t, ht, hRt⟩ := hq
    have hts : t = s := Fin.ext (by exact_mod_cast ht.symm.trans hs)
    subst hts
    show q = update k.mem pa page (pte2pa (swapInEntry pa e))
    rw [hpa, update_self]
    exact (hR.back hin hRt).symm

end Restored

/-- **A page in swap** comes back, with its contents. -/
theorem vmfaultSwapped_spec (h : Ready c g k) (hroot : (k.proc me).pagetable = r)
    (hal : va % pgsize = 0) (hlt : va < trapframe) (he : k.tables.entry r (vpn va) = some e)
    (hV : e.getLsbD pteV = false) (hS : e.getLsbD pteS = true) :
    Sat (watch c) (vmfaultSwapped me ⟨r, vpn va⟩ va) (Faulted R c r (vpn va) k) k := by
  subst hroot
  have hW : ∀ e, (watch c : Watch Panic (Eviction D)).allowed (.disk e) :=
    fun e => watch_allowed id
  unfold vmfaultSwapped
  apply Sat.seq_run (deref_run he)
  apply Sat.seq
  apply (getFrame_spec (R := R) me h).mono
  rintro pa k₁ ⟨⟨g₁, hready, hquiet, -, hgot⟩, hactive⟩
  have he₁ := hquiet.invalid _ _ _ he hV
  split
  · exact Sat.panic (watch_allowed id)
  · next h0 =>
      obtain ⟨hheld, -⟩ := hgot.held h0
      obtain ⟨s, hs, hused, hslot⟩ := hready.inv.pages.swapped he₁ hV hS
      obtain ⟨haligned, -, hhi⟩ := hready.inv.free.frame pa (by rw [hheld]; simp)
      have hpa : pte2pa (swapInEntry pa e) = pa := pte2pa_swapInEntry e haligned hhi
      rw [← (hquiet.procs me).pagetable] at he₁ ⊢
      apply Sat.seq
      apply (swapin_spec hW me hs hused).mono
      rintro _ k₂ ⟨page, d, hin, rfl⟩
      have hderef := deref_run (k := k₁.swappedIn me pa s page d)
        (p := ⟨(k₁.proc me).pagetable, vpn va⟩) he₁
      obtain ⟨i, hi, hrun⟩ := frametableAlloc_spec me me va hready (hactive h0) h0
      apply Sat.seq_run hderef
      apply Sat.seq_run (assign_run _ _)
      apply Sat.seq_update
      refine Sat.seq_run (hrun _ ?_ ?_) ?_
      · rfl
      · rfl
      rw [restored_eq]
      have hspecial := not_special_of_lt hal hlt
      refine Sat.ret ⟨⟨_, hready.inv.restore he₁ hV hS hs hheld hal hlt hi, ?_⟩, ?_, ?_, ?_⟩
      · rw [restored_framelock]
        exact hready.lock
      · refine hquiet.calm.trans (.of_setEntry restored_sameButStats restored_image
          restored_tables hspecial ⟨rfl, rfl⟩ ?_)
        intro q hx
        exact absurd rfl (hready.inv.extra q _ hx me)
      · exact fun hR => Keeps.trans (hquiet.content hR)
          (hready.inv.keeps_of_restore hR he₁ hV hS hs hheld hin)
      · intro _
        refine ⟨swapInEntry pa e, ?_, swapInEntry_valid pa e, hpa, Or.inr ⟨e, ?_, rfl⟩⟩
        · rw [restored_tables, entry_setEntry, if_pos ⟨rfl, rfl⟩, he₁]
          rfl
        · rw [(hquiet.procs me).pagetable]
          exact he

omit [SwapStore D] in
/-- Counters are no part of the invariant. -/
theorem Ready.updProc (h : Ready c g k) (p : ProcId) {f : Proc → Proc}
    (hf : ∀ q : Proc, q.SameButStats (f q)) : Ready c g (k.updProc p f) := by
  have hpt := fun q => (updProc_sameButStats (k := k) hf p q).pagetable
  have htf := fun q => (updProc_sameButStats (k := k) hf p q).trapframe
  refine ⟨⟨h.inv.free, h.inv.tree, ?_, h.inv.pages, ?_, ?_⟩, h.lock⟩
  · simp only [htf]
    exact h.inv.trap
  · simp only [hpt]
    exact h.inv.frames
  · intro p r hx q
    rw [hpt]
    exact h.inv.extra p r hx q

/-- A fault that is counted first. -/
theorem Faulted.of_count {f : Proc → Proc} (hf : ∀ q : Proc, q.SameButStats (f q))
    (h : Faulted R c r v (k.updProc me f) pa k') : Faulted R c r v k pa k' where
  ready := h.ready
  calm := Calm.trans (.of_tables (updProc_sameButStats hf me) rfl rfl) h.calm
  keeps := h.keeps
  resident := h.resident

omit [SwapStore D] in
theorem ismapped_run {t : PageTable} (hva : va < maxva) (ht : k.tables r = some t) :
    ismapped r va k = .ok ((k.tables.entry r (vpn va)).any fun e => e.getLsbD pteV, k, []) := by
  unfold ismapped
  rw [bind_of_ok (walk_run hva ht)]
  cases he : k.tables.entry r (vpn va) with
  | none => rfl
  | some e =>
    show (deref _ >>= fun e => pure (e.getLsbD pteV)) k = _
    rw [bind_of_ok (deref_run he)]
    rfl

/-- **`vmfault`** from any state with a right bookkeeping. -/
theorem vmfault_spec (va : Nat) (h : Ready c g k) (hr : (k.tables (k.proc me).pagetable).isSome)
    (hsz : (k.proc me).sz ≤ trapframe) :
    Sat (watch c) (vmfault me (k.proc me).pagetable va)
      (Faulted R c (k.proc me).pagetable (vpn va) k) k := by
  have hidle : Faulted R c (k.proc me).pagetable (vpn va) k 0 k :=
    ⟨⟨g, h⟩, .of_tables (fun _ => rfl) rfl rfl, fun _ _ _ _ _ hp => hp, fun hf => absurd rfl hf⟩
  unfold vmfault
  apply Sat.seq_get
  split
  · exact Sat.ret hidle
  · next hva =>
      rw [not_or, Nat.not_le, Nat.not_le] at hva
      obtain ⟨t, ht⟩ := Option.isSome_iff_exists.mp hr
      have hle := pgrounddown_le va
      have hvpn := vpn_pgrounddown va
      have hal := pgrounddown_aligned va
      have hlt : pgrounddown va < trapframe := by omega
      have hmax : pgrounddown va < maxva := by omega
      apply Sat.seq_run (walk_run hva.1 ht)
      apply Sat.seq_run (ismapped_run hmax ht)
      rw [hvpn]
      have hcount : ∀ q : Proc, q.SameButStats q.countFault := fun _ => rfl
      have hready := h.updProc me hcount
      have hpt : ((k.updProc me Proc.countFault).proc me).pagetable = (k.proc me).pagetable :=
        (updProc_sameButStats hcount me me).pagetable
      have hlazy : k.tables.Empty (k.proc me).pagetable (vpn va) →
          Sat (watch c) (vmfaultLazy me (pgrounddown va))
            (Faulted R c (k.proc me).pagetable (vpn va) k) (k.updProc me Proc.countFault) := by
        intro hempty
        rw [← hvpn] at hempty ⊢
        exact (vmfaultLazy_spec hready hpt hr hlt hempty).mono fun _ _ hf => hf.of_count hcount
      cases he : k.tables.entry (k.proc me).pagetable (vpn va) with
      | none =>
        apply Sat.seq_update
        exact hlazy fun e hf => by rw [he] at hf; cases hf
      | some e =>
        cases hV : e.getLsbD pteV with
        | true =>
          simp only [Option.any_some, hV]
          exact Sat.ret hidle
        | false =>
          simp only [Option.any_some, hV]
          apply Sat.seq_update
          refine Sat.seq_run (deref_run (k := k.updProc me Proc.countFault) he) ?_
          split
          · next hS =>
              rw [← hvpn] at he ⊢
              exact (vmfaultSwapped_spec hready hpt hal hlt he hV hS).mono
                fun _ _ hf => hf.of_count hcount
          · next hS =>
              apply hlazy
              intro e' he'
              rw [he] at he'
              cases he'
              exact h.inv.pages.zero he hV (by simpa using hS)

end Vmfault

end Xv6
