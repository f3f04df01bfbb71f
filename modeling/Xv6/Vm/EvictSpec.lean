import Xv6.Vm.AllocSpec

/-!
# Eviction and allocation

`clock_evict` hands out a frame that belonged to a user page, or `0`. On top of it stand `kalloc`,
`get_frame` and `frametable_alloc`. From a `Ready` state all of them end in a `Ready` state, and what
they do to others is `Quiet`.
-/

namespace Xv6

open Function

variable {D : Type} {k k' : Kernel D}

open TraceM

theorem Kernel.updProc_pagetable {f : Proc → Proc} (hf : ∀ q, (f q).pagetable = q.pagetable)
    (p q : ProcId) : ((k.updProc p f).proc q).pagetable = (k.proc q).pagetable := by
  unfold Kernel.updProc
  by_cases h : q = p
  · subst h
    simp [hf]
  · simp [h]

theorem Kernel.updProc_trapframe {f : Proc → Proc} (hf : ∀ q, (f q).trapframe = q.trapframe)
    (p q : ProcId) : ((k.updProc p f).proc q).trapframe = (k.proc q).trapframe := by
  unfold Kernel.updProc
  by_cases h : q = p
  · subst h
    simp [hf]
  · simp [h]

theorem Kernel.updProc_sameButStats {f : Proc → Proc} (hf : ∀ q : Proc, q.SameButStats (f q))
    (p q : ProcId) : (k.proc q).SameButStats ((k.updProc p f).proc q) := by
  unfold Kernel.updProc
  by_cases h : q = p
  · subst h
    simpa using hf _
  · simpa [h] using Proc.SameButStats.refl _

section Evict

variable {c : Ctx} {g : Ledger} {r : Nat} {v : Vpn} {e : Pte} {s : Fin maxSwap}

/-- Eviction of the page behind the frame-table entry `i` keeps the invariant. -/
theorem Inv.evict (h : Inv c g k) (he : k.tables.entry r v = some e) (hv : ¬ Special v)
    (hV : e.getLsbD pteV = true) (hs : (k.swaptable s).used = false) {i : Fin maxFrames}
    (hi : (k.frametable i).used = true) (hpa : (k.frametable i).pa = pte2pa e)
    (himage : k'.image = k.image) (hfree : k'.freelist = k.freelist)
    (htab : k'.tables = k.tables.setEntry r v (swapEntry s e))
    (hne : ∀ j, j ≠ i → k'.frametable j = k.frametable j)
    (hi' : (k'.frametable i).used = false ∧ (k'.frametable i).proc = none)
    (hactive : k'.activeFrames = k.activeFrames - 1)
    {slot : SwapSlot} (hslot : slot.used = true ∧ slot.pageTable = r ∧ slot.va = v.addr)
    (hslots : k'.swaptable = update k.swaptable s slot)
    (hpt : ∀ p, (k'.proc p).pagetable = (k.proc p).pagetable)
    (htf : ∀ p, (k'.proc p).trapframe = (k.proc p).trapframe) :
    Inv c (update g (pte2pa e) .held) k' := by
  have ho := (h.pages.resident he hv hV).1
  refine ⟨?_, ?_, ?_, ?_, ?_, ?_⟩
  · rw [himage, hfree]
    exact h.free.reown (by rw [ho]; simp) (by rw [ho]; simp)
  · rw [htab]
    exact (h.tree.reown (by rw [ho]; rfl)).setEntry v _
  · simp only [htf]
    exact h.trap.reown (by rw [ho]; simp)
  · rw [htab, hslots]
    exact h.pages.evict he hv hV hs hslot
  · simp only [htab, hpt, hactive]
    refine h.frames.unmap he hi hpa ?_ (swapEntry_not_valid _ _) hi' hne
    intro r' w e₀ h₀ hw hV₀ heq
    exact h.pages.frame_injective he hv hV h₀ hw hV₀ heq
  · intro p r' hx q
    rw [hpt]
    exact h.extra p r' hx q

variable [SwapStore D] {R : View D}

/-- Eviction is a quiet change. -/
theorem Quiet.evict (h : Inv c g k) (he : k.tables.entry r v = some e) (hv : ¬ Special v)
    (hV : e.getLsbD pteV = true) (hs : (k.swaptable s).used = false)
    (hx : ∀ p, c.extra ≠ some (p, r))
    (hprocs : ∀ p, (k.proc p).SameButStats (k'.proc p))
    (himage : k'.image = k.image) (hactive : k'.activeFrames = k.activeFrames - 1)
    (hmem : k'.mem = k.mem)
    (htab : k'.tables = k.tables.setEntry r v (swapEntry s e)) {me : SwapDisk.Caller} {p₀ : ProcId}
    {d : D} (hout : SwapStore.swapOutPage me (k.mem (pte2pa e)) s k.disk = .ok ((), d))
    (hdisk : k'.disk = SwapStore.noteWrite p₀ d) :
    Quiet R c g k (update g (pte2pa e) .held) k' := by
  have ho := (h.pages.resident he hv hV).1
  have hentry : ∀ r' w, k'.tables.entry r' w =
      if r' = r ∧ w = v then some (swapEntry s e) else k.tables.entry r' w := by
    intro r' w
    rw [htab, Tables.entry_setEntry, he]
    rfl
  have hother : ∀ r' w o, k.tables.entry r' w = o → o ≠ some e → k'.tables.entry r' w = o := by
    intro r' w o h₀ hne
    rw [hentry, if_neg]
    · exact h₀
    · rintro ⟨rfl, rfl⟩
      exact hne (h₀.symm.trans he)
  refine ⟨hprocs, himage, by omega, ?_, ?_, ?_, ?_, ?_, ?_, ?_, ?_, ?_, ?_, ?_⟩
  · intro a _ hpage
    exact own_update_of_ne rfl (by rw [ho]; exact (hpage r v).symm)
  · intro a ha
    by_cases hap : a = pte2pa e
    · subst hap
      simp
    · simpa [update_of_ne hap] using ha
  · intro a _
    rw [hmem]
  · intro r'
    rw [htab, Tables.isSome_setEntry]
  · intro r' i m hm
    rw [htab, Tables.midPage_setEntry]
    exact hm
  · intro r' w h₀
    exact Or.inl (hother r' w none h₀ (by simp))
  · intro r' w e₀ h₀ hV₀
    refine hother r' w _ h₀ ?_
    rintro ⟨⟩
    rw [hV] at hV₀
    cases hV₀
  · intro r' w e₀ h₀ hV₀
    rw [hentry]
    split
    · next heq =>
        obtain ⟨rfl, rfl⟩ := heq
        rw [he] at h₀
        cases h₀
        refine ⟨_, rfl, fun n hn h₁ h₂ _ => swapEntry_flag _ _ hn h₁ h₂, ?_⟩
        intro hf
        rw [swapEntry_not_valid] at hf
        cases hf
    · exact ⟨e₀, h₀, fun _ _ _ _ _ => rfl, fun _ => rfl⟩
  · intro r' w e₀ h₀ hw
    rw [hentry, if_neg]
    · exact h₀
    · rintro ⟨-, rfl⟩
      exact hv hw
  · intro p r' w e₀ hp h₀
    rw [hentry, if_neg]
    · exact h₀
    · rintro ⟨rfl, -⟩
      exact hx p hp
  · intro hR r' w page _ hpage
    unfold Holds at *
    rw [hentry, hmem, hdisk]
    split
    · next heq =>
        obtain ⟨rfl, rfl⟩ := heq
        rw [he, content_valid hV] at hpage
        rw [content_swapped (swapEntry_not_valid _ _) (swapEntry_swapped _ _), hpage]
        exact ⟨s, swapIdx_swapEntry e s.isLt, hR.noteWrite (hR.out hout)⟩
    · apply hpage.transfer (fun _ _ _ => rfl)
      intro e₀ t h₀ hV₀ hS₀ ht hRt
      obtain ⟨t', ht', hused, -⟩ := h.pages.swapped h₀ hV₀ hS₀
      have htt : t' = t := Fin.ext (by exact_mod_cast ht'.symm.trans ht)
      have hts : t ≠ s := by
        rintro rfl
        rw [htt, hs] at hused
        cases hused
      exact hR.noteWrite (hR.out_other hout hts hRt)

end Evict

/-! ## `clock_evict` -/

section Alloc

/-- A hidden entry that is shown again is as before. -/
theorem Kernel.unhide_hide {v : Victim} (hp : (k.frametable v.idx).proc = some v.proc) :
    ((k.hideFrame v.idx).setLock true).unhideFrame v =
      (k.setClock k.tables (v.idx + 1)).setLock true := by
  unfold Kernel.unhideFrame Kernel.hideFrame Kernel.setFrame Kernel.setLock Kernel.setClock
  have hft : update k.frametable v.idx
      { k.frametable v.idx with proc := some v.proc } = k.frametable := by
    rw [← hp]
    exact update_eq_self ..
  simp [hft]

variable {c : Ctx} {g g' : Ledger}

/-- What an allocation hands out: nothing, or a frame that was free or a user page. -/
def Got (g g' : Ledger) (pa : Nat) : Prop :=
  (pa = 0 ∧ g' = g) ∨
    (pa ≠ 0 ∧ g' = update g pa .held ∧ (g pa = .free ∨ ∃ r v, g pa = .page r v))

/-- The kernel after the victim `vic` went to slot `s`. -/
def Kernel.evicted (k : Kernel D) (vic : Victim) (pt : Nat) (s : Fin maxSwap) (slot : SwapSlot)
    (d : D) (e : Pte) : Kernel D :=
  { k with
    framelock := false
    clockHand := vic.idx + 1
    frametable := update k.frametable vic.idx
      { k.frametable vic.idx with proc := none, used := false }
    activeFrames := k.activeFrames - 1
    tables := k.tables.setEntry pt (vpn vic.va) (swapEntry s e)
    swaptable := update k.swaptable s slot
    disk := d
    proc := (k.updProc vic.proc Proc.countEvicted).proc }

section Evicted

variable {vic : Victim} {pt : Nat} {s : Fin maxSwap} {slot : SwapSlot} {d : D} {e : Pte}

theorem Kernel.evicted_eq : ((((((k.hideFrame vic.idx).setSlot s slot).setDisk d).setEntry pt
    (vpn vic.va) (swapEntry s e)).setLock true).finishEvict vic).setLock false =
      k.evicted vic pt s slot d e := by
  unfold Kernel.evicted Kernel.finishEvict Kernel.setLock Kernel.setEntry Kernel.setDisk
    Kernel.setSlot Kernel.hideFrame Kernel.updProc Kernel.setFrame Kernel.setTables
  simp

theorem Kernel.evicted_frame : (k.evicted vic pt s slot d e).frametable vic.idx =
    { k.frametable vic.idx with proc := none, used := false } := by
  unfold Kernel.evicted
  simp

/-- The frame of an evicted page belongs to the caller. -/
theorem Inv.evicted (h : Inv c g k) (he : k.tables.entry pt (vpn vic.va) = some e)
    (hal : vic.va % pgsize = 0) (hlt : vic.va < trapframe) (hV : e.getLsbD pteV = true)
    (hs : (k.swaptable s).used = false) (hi : (k.frametable vic.idx).used = true)
    (hpa : (k.frametable vic.idx).pa = pte2pa e)
    (hslot : slot.used = true ∧ slot.pageTable = pt ∧ slot.va = vic.va) :
    Inv c (update g (pte2pa e) .held) (k.evicted vic pt s slot d e) := by
  have hmax : vic.va < maxva := lt_trans hlt (by decide)
  rw [← addr_vpn hal hmax] at hslot
  unfold Kernel.evicted
  refine h.evict he (not_special_of_lt hal hlt) hV hs hi hpa rfl rfl rfl ?_ ?_ rfl hslot rfl ?_ ?_
  · intro j hj
    exact update_of_ne hj _ _
  · simp
  · exact Kernel.updProc_pagetable (f := Proc.countEvicted) (fun _ => rfl) _
  · exact Kernel.updProc_trapframe (f := Proc.countEvicted) (fun _ => rfl) _

theorem Quiet.evicted [SwapStore D] {R : View D} {me : ProcId} (h : Inv c g k)
    (he : k.tables.entry pt (vpn vic.va) = some e) (hv : ¬ Special (vpn vic.va))
    (hV : e.getLsbD pteV = true) (hs : (k.swaptable s).used = false)
    (hx : ∀ p, c.extra ≠ some (p, pt))
    (hout : SwapStore.swapOutPage (k.caller me) (k.mem (pte2pa e)) s k.disk = .ok ((), d)) :
    Quiet R c g k (update g (pte2pa e) .held)
      (k.evicted vic pt s slot (SwapStore.noteWrite me d) e) := by
  unfold Kernel.evicted
  refine Quiet.evict h he hv hV hs hx ?_ rfl rfl rfl rfl hout rfl
  exact Kernel.updProc_sameButStats (fun _ => by rfl) _

end Evicted

/-- No table but a stale one maps a frame in the hands of a call. -/
theorem Inv.not_mapped_of_held (h : Inv c g k) {pa r : Nat} {v : Vpn} {e : Pte}
    (ho : g pa = .held) (hr : some r ≠ c.stale) (he : k.tables.entry r v = some e)
    (hV : e.getLsbD pteV = true) : pte2pa e ≠ pa := by
  rintro rfl
  by_cases hv : Special v
  · have hfix := h.pages.fixed he hv hV hr
    rw [ho] at hfix
    cases hfix
  · rw [(h.pages.resident he hv hV).1] at ho
    cases ho

variable [SwapStore D] {R : View D}

/-- Where an allocation can end. -/
def Allocated (R : View D) (c : Ctx) (g : Ledger) (k : Kernel D) (pa : Nat) (k' : Kernel D) : Prop :=
  ∃ g', Ready c g' k' ∧ Quiet R c g k g' k' ∧ k.tables.SameShape k'.tables ∧ Got g g' pa

/-- The page of the victim `vic` is in the table `r`: that of its process, or one under construction
for it. -/
structure VictimPage (c : Ctx) (k : Kernel D) (vic : Victim) (r : Nat) (e : Pte) : Prop where
  proc : (k.frametable vic.idx).proc = some vic.proc
  va : (k.frametable vic.idx).va = vic.va
  root : r = (k.proc vic.proc).pagetable ∨ c.extra = some (vic.proc, r)
  aligned : vic.va % pgsize = 0
  below : vic.va < trapframe
  entry : k.tables.entry r (vpn vic.va) = some e
  valid : e.getLsbD pteV = true
  frame : pte2pa e = (k.frametable vic.idx).pa

section Victim

variable {vic : Victim} {r s : Nat} {e : Pte}

omit [SwapStore D]

/-- The victim is a page of its process. -/
theorem Inv.victimPage (h : Inv c g k) (hp : (k.frametable vic.idx).proc = some vic.proc)
    (hva : (k.frametable vic.idx).va = vic.va) : ∃ r e, VictimPage c k vic r e := by
  obtain ⟨p, r, e, hp', hr, hal, hlt, he, hV, hpa⟩ := h.frames.used _ (h.used_of_proc hp)
  rw [hp] at hp'
  cases hp'
  rw [hva] at hal hlt he
  exact ⟨r, e, hp, hva, hr, hal, hlt, he, hV, hpa⟩

namespace VictimPage

variable (hinv : Inv c g k) (h : VictimPage c k vic r e)

include h in
theorem not_special : ¬ Special (vpn vic.va) := not_special_of_lt h.aligned h.below

include hinv h

/-- No other table maps the frame. -/
theorem root_unique {r' : Nat} {e' : Pte} (he : k.tables.entry r' (vpn (k.frametable vic.idx).va) = some e')
    (hV : e'.getLsbD pteV = true) (hpa : pte2pa e' = (k.frametable vic.idx).pa) : r = r' := by
  rw [h.va] at he
  exact (hinv.pages.frame_injective h.entry h.not_special h.valid he h.not_special hV
    (hpa.trans h.frame.symm)).1.symm

theorem apt (hr : r = (k.proc vic.proc).pagetable) (pa : Nat) :
    (⟨vic.idx, pa, k, k'⟩ : Eviction D).Apt ∧ ¬ (⟨vic.idx, pa, k, k'⟩ : Eviction D).OfNewTable := by
  refine ⟨⟨vic.proc, e, h.proc, ?_, h.valid, h.frame⟩, ?_⟩
  · rw [← hr]
    exact h.va.symm ▸ h.entry
  · rintro ⟨r', e', hnone, he, hV, hpa⟩
    exact hnone vic.proc (hr.symm.trans (h.root_unique hinv he hV hpa))

theorem ofNewTable (hr : c.extra = some (vic.proc, r)) (pa : Nat) :
    ¬ (⟨vic.idx, pa, k, k'⟩ : Eviction D).Apt ∧ (⟨vic.idx, pa, k, k'⟩ : Eviction D).OfNewTable := by
  refine ⟨?_, r, e, hinv.extra _ _ hr, h.va.symm ▸ h.entry, h.valid, h.frame⟩
  rintro ⟨p, e', -, he, hV, hpa⟩
  exact hinv.extra _ _ hr p (h.root_unique hinv he hV hpa).symm

end VictimPage

end Victim

section Out

variable {vic : Victim} {r : Nat} {T : Tables} {hand : Fin maxFrames} {e₀ e : Pte} {s : Fin maxSwap} {d : D}
  {me : ProcId} {slot : SwapSlot}

/-- A page of a current table that went out: nobody maps its frame any more. -/
theorem VictimPage.allocated (h : Ready c g k)
    (hvic : VictimPage c k vic (k.proc vic.proc).pagetable e₀) (hscan : Scanned R c g k (k.setClock T hand))
    (he : T.entry (k.proc vic.proc).pagetable (vpn vic.va) = some e) (hV : e.getLsbD pteV = true)
    (hs : (k.swaptable s).used = false)
    (hout : SwapStore.swapOutPage (k.caller me) (k.mem (pte2pa e)) s k.disk = .ok ((), d))
    (hk' : k' = (k.setClock T hand).evicted vic (k.proc vic.proc).pagetable s
      ⟨true, (k.proc vic.proc).pagetable, vic.va, SwapStore.raidMode k.disk⟩ (SwapStore.noteWrite me d) e) :
    Allocated R c g k (k.frametable vic.idx).pa k' ∧
      (⟨vic.idx, (k.frametable vic.idx).pa, k, k'⟩ : Eviction D).SoundBut c.stale := by
  obtain ⟨e', he', -, hpa'⟩ := hscan.quiet.valid _ _ _ hvic.entry hvic.valid
  have hee : e' = e := Option.some.inj (he'.symm.trans he)
  have hpa : (k.frametable vic.idx).pa = pte2pa e := by
    rw [← hvic.frame, ← hee, hpa' (by rw [hee]; exact hV)]
  have ho := (hscan.inv.pages.resident he hvic.not_special hV).1
  have hinv : Inv c (update g (pte2pa e) .held) k' := by
    rw [hk']
    exact hscan.inv.evicted he hvic.aligned hvic.below hV hs (h.inv.used_of_proc hvic.proc) hpa ⟨rfl, rfl, rfl⟩
  have hquiet : Quiet R c g (k.setClock T hand) (update g (pte2pa e) .held) k' := by
    rw [hk']
    exact .evicted hscan.inv he hvic.not_special hV hs (fun p hx => h.inv.extra p _ hx _ rfl) hout
  rw [hpa]
  refine ⟨⟨_, ⟨hinv, by rw [hk']; rfl⟩, hscan.quiet.trans hquiet, ?_,
    .inr ⟨h.inv.ne_zero (by rw [ho]; simp), rfl, .inr ⟨_, _, ho⟩⟩⟩, ?_⟩
  · rw [hk']
    exact hscan.shape.trans (.setEntry _ _ _)
  · intro r v e' hr he' hV'
    exact hinv.not_mapped_of_held (update_self ..) hr he' hV'

/-- A table under construction still maps the frame of its page. -/
theorem VictimPage.unsound (h : Ready c g k) (hvic : VictimPage c k vic r e₀)
    (hr : c.extra = some (vic.proc, r)) (hscan : Scanned R c g k (k.setClock T hand)) :
    ¬ (⟨vic.idx, (k.frametable vic.idx).pa, k,
      (k.setClock T hand).evicted vic (k.proc vic.proc).pagetable s slot d e⟩ : Eviction D).Sound := by
  intro hsound
  refine hsound r (vpn vic.va) e₀ (by simp) ?_ hvic.valid hvic.frame
  show (T.setEntry _ _ _).entry r (vpn vic.va) = some e₀
  rw [Tables.entry_setEntry, if_neg]
  · exact hscan.quiet.extra _ _ _ _ hr hvic.entry
  · rintro ⟨heq, -⟩
    exact h.inv.extra _ _ hr _ heq.symm

end Out

/-- **`clock_evict`** returns a page that nothing else uses, or 0. -/
theorem clockEvict_spec (me : ProcId) (h : Ready c g k) :
    Sat (watch c) (clockEvict me) (fun pa k' => Allocated R c g k pa k' ∧
      (pa ≠ 0 → k'.activeFrames < k.activeFrames)) k := by
  unfold clockEvict
  apply Sat.seq_get
  apply Sat.seq
  apply (clockSelect_sat h.lock (h.sweeps (R := R))).mono
  rintro res k₁' ⟨k₁, hscan, hres⟩
  obtain ⟨T, hand, rfl⟩ : ∃ T hand, k₁ = k.setClock T hand := ⟨_, _, hscan.same⟩
  cases res with
  | none =>
    subst hres
    exact Sat.ret ⟨⟨g, ⟨hscan.inv, h.lock⟩, hscan.quiet, hscan.shape, Or.inl ⟨rfl, rfl⟩⟩, fun h0 => absurd rfl h0⟩
  | some vic =>
    obtain ⟨hp, hva, rfl⟩ := hres
    apply Sat.seq_get
    obtain ⟨r, e₀, hvic⟩ := h.inv.victimPage hp hva
    have hvaMax : vic.va < maxva := lt_trans hvic.below (by decide)
    cases ht : T (k.proc vic.proc).pagetable with
    | none =>
      apply Sat.of_error (e := .kerneltrap)
      · apply bind_of_error
        unfold swapout
        exact bind_of_error (walk_missing hvaMax ht)
      · -- the table of the process is there, unless the page is in another one
        refine ⟨fun hnone => ?_, fun _ => id⟩
        rcases hvic.root with rfl | hr
        · obtain ⟨t, ht'⟩ := isSome_of_entry hvic.entry
          have hsome := hscan.quiet.tables (k.proc vic.proc).pagetable
          rw [ht', show (k.setClock T hand).tables = T from rfl, ht] at hsome
          cases hsome
        · rw [hnone] at hr
          cases hr
    | some t =>
      apply Sat.seq
      refine Sat.mono (swapout_spec (t := t) (fun e => watch_allowed id) me hvaMax ht) ?_
      rintro res k₂ hres
      cases res with
      | none =>
        obtain ⟨rfl, -⟩ := hres
        refine Sat.seq_run (acquireFramelock_run (by exact h.lock)) ?_
        apply Sat.seq_update
        refine Sat.seq_run (releaseFramelock_run rfl) ?_
        rw [Kernel.unhide_hide (k := k.setClock T hand) hp]
        refine Sat.ret ⟨⟨g, ⟨?_, rfl⟩, hscan.quiet.congr rfl rfl rfl rfl rfl rfl,
          hscan.shape, Or.inl ⟨rfl, rfl⟩⟩, fun h0 => absurd rfl h0⟩
        exact ⟨hscan.inv.free, hscan.inv.tree, hscan.inv.trap, hscan.inv.pages,
          hscan.inv.frames, hscan.inv.extra⟩
      | some s =>
        obtain ⟨e, d, he, hV, hs, -, hout, rfl⟩ := hres
        refine Sat.seq_run (acquireFramelock_run (by exact h.lock)) ?_
        apply Sat.seq_update
        refine Sat.seq_run (releaseFramelock_run rfl) ?_
        rw [Kernel.evicted_eq]
        apply Sat.seq_get
        rw [Kernel.evicted_frame]
        rcases hvic.root with rfl | hr
        · obtain ⟨halloc, hsound⟩ := hvic.allocated h hscan he hV hs hout rfl
          exact Sat.seq_emit_fine ⟨hvic.apt h.inv rfl _, hsound⟩
            (Sat.ret ⟨halloc, fun _ => Int.sub_one_lt_of_le le_rfl⟩)
        · exact Sat.seq_emit_broken ⟨⟨by rw [hr]; simp, fun hno => hno _ _ _ _ _ hout⟩,
            hvic.ofNewTable h.inv hr _, hvic.unsound h hr hscan⟩

end Alloc

/-! ## Allocation -/

section Allocation

variable {c : Ctx} {g g' : Ledger} {pa : Nat} {o : Owner}

/-- Owners that no part of the kernel state but the free list refers to. -/
def Owner.isLoose : Owner → Bool
  | .free | .held => true
  | _ => false

/-- A loose page changes hands. -/
theorem Inv.giveLoose (h : Inv c g k) (hpa : (g pa).isLoose = true)
    (hfree : FreeOk (update g pa o) k'.image.kend k'.freelist)
    (htab : k'.tables = k.tables) (hproc : k'.proc = k.proc) (hslots : k'.swaptable = k.swaptable)
    (hft : k'.frametable = k.frametable) (hactive : k'.activeFrames = k.activeFrames) :
    Inv c (update g pa o) k' := by
  have hne : ∀ o', o'.isLoose = false → g pa ≠ o' := by
    rintro o' ho' rfl
    rw [hpa] at ho'
    cases ho'
  refine ⟨hfree, ?_, ?_, ?_, ?_, ?_⟩
  · rw [htab]
    apply h.tree.reown
    cases ho : g pa <;> rw [ho] at hpa <;> first | rfl | cases hpa
  · rw [hproc]
    exact h.trap.reown fun p => hne _ rfl
  · rw [htab, hslots]
    apply h.pages.reown (fun r v => hne _ rfl)
    cases ho : g pa <;> rw [ho] at hpa <;> first | rfl | cases hpa
  · rw [htab, hproc, hft, hactive]
    exact h.frames
  · rw [hproc]
    exact h.extra

/-- Unregistered frames exist while `active_frames` is below the size of the table. -/
theorem Inv.exists_unused (h : Inv c g k) (hlt : k.activeFrames < maxFrames) :
    ∃ i, (k.frametable i).used = false := by
  by_contra hall
  simp only [not_exists, Bool.not_eq_false] at hall
  have hcard := h.frames.active
  rw [Finset.filter_true_of_mem fun i _ => hall i, Finset.card_univ, Fintype.card_fin] at hcard
  omega

/-- The table never holds more than `MAX_FRAMES` frames. -/
theorem Inv.active_le (h : Inv c g k) : k.activeFrames ≤ maxFrames := by
  rw [h.frames.active]
  have hcard := Finset.card_filter_le (Finset.univ : Finset (Fin maxFrames))
    fun i => (k.frametable i).used = true
  rw [Finset.card_univ, Fintype.card_fin] at hcard
  exact_mod_cast hcard

variable [SwapStore D] {R : View D}

/-- Loose memory is no one's content. -/
theorem Quiet.setLooseMem (h : Inv c g k) (hpa : g pa = .free) {rest : List Nat} {page : Page} :
    Quiet R c g k (update g pa .held) ((k.setFreelist rest).setMem pa page) where
  procs _ := rfl
  image := rfl
  active := le_rfl
  own a ha _ := own_update_of_ne rfl (by rw [hpa]; exact ha.symm)
  use a ha := by
    rw [own_update_of_ne rfl (by rw [hpa]; exact ha.symm)]
    exact ha
  mem a ha := by
    refine update_of_ne ?_ _ _
    rintro rfl
    exact ha hpa
  tables _ := rfl
  mid _ _ _ h := h
  absent _ _ h := Or.inl h
  invalid _ _ _ h _ := h
  valid _ _ e h _ := ⟨e, h, fun _ _ _ _ _ => rfl, fun _ => rfl⟩
  special _ _ _ h _ := h
  extra _ _ _ _ _ h := h
  content _ r v page hv hp := by
    refine Content.transfer hp ?_ (fun _ _ _ _ _ _ hR => hR)
    intro e he hV
    refine update_of_ne ?_ _ _
    rintro rfl
    rw [(h.pages.resident he hv hV).1] at hpa
    cases hpa

/-- **`kalloc`** returns a page that nothing else uses, or 0. -/
theorem kalloc_spec (me : ProcId) (h : Ready c g k) :
    Sat (watch c) (kalloc me) (Allocated R c g k) k := by
  unfold kalloc
  apply Sat.seq_get
  split
  · exact (clockEvict_spec me h).mono fun _ _ h => h.1
  · next pa rest hlist =>
      have hfree := h.inv.free
      rw [hlist] at hfree
      have hpa : g pa = .free := hfree.free pa List.mem_cons_self
      apply Sat.seq_run rfl
      apply Sat.seq_update
      refine Sat.ret ⟨_, ⟨h.inv.giveLoose (by rw [hpa]; rfl) hfree.pop rfl rfl rfl rfl rfl, h.lock⟩,
        .setLooseMem h.inv hpa, .refl, Or.inr ⟨h.inv.ne_zero (by rw [hpa]; simp), rfl, Or.inl hpa⟩⟩

/-- **`get_frame`** returns a page that the frame table has room for, or 0. -/
theorem getFrame_spec (me : ProcId) (h : Ready c g k) :
    Sat (watch c) (getFrame me) (fun pa k' => Allocated R c g k pa k' ∧
      (pa ≠ 0 → k'.activeFrames < maxFrames)) k := by
  unfold getFrame
  apply Sat.seq_run (acquireFramelock_run h.lock)
  apply Sat.seq_get
  apply Sat.seq_run (releaseFramelock_run rfl)
  have hback : (k.setLock true).setLock false = k := by
    show k.setLock false = k
    rw [← h.lock]
    rfl
  rw [hback]
  have hle := h.inv.active_le
  split
  · next hlt =>
      apply Sat.seq
      apply (kalloc_spec (R := R) me h).mono
      rintro pa k₁ ⟨g₁, hready, hquiet, hshape, hgot⟩
      have hlt₁ : k₁.activeFrames < maxFrames := lt_of_le_of_lt hquiet.active hlt
      split
      · next h0 =>
          rcases hgot with ⟨-, rfl⟩ | ⟨hne, -⟩
          · apply (clockEvict_spec (R := R) me hready).mono
            rintro pa' k₂ ⟨⟨g₂, hready₂, hquiet₂, hshape₂, hgot₂⟩, hless⟩
            exact ⟨⟨g₂, hready₂, hquiet.trans hquiet₂, hshape.trans hshape₂, hgot₂⟩,
              fun hne => (hless hne).trans hlt₁⟩
          · exact absurd h0 hne
      · exact Sat.ret ⟨⟨g₁, hready, hquiet, hshape, hgot⟩, fun _ => hlt₁⟩
  · apply (clockEvict_spec (R := R) me h).mono
    rintro pa k₁ ⟨halloc, hless⟩
    exact ⟨halloc, fun hne => lt_of_lt_of_le (hless hne) hle⟩

end Allocation

/-! ## Registration -/

section Register

variable [SwapStore D] {me p : ProcId} {pa va : Nat} {again : KM D Unit}

theorem frametableAlloc_run {i : Fin maxFrames} (h : k.framelock = false) (hpa : pa ≠ 0)
    (hi : (firstIdx fun i => !(k.frametable i).used) = some i) :
    frametableAlloc me pa p va k = .ok ((), k.registerFrame i pa p va, []) := by
  unfold frametableAlloc frametableAllocFor frametableAllocBody
  rw [bind_of_ok (acquireFramelock_run h), if_neg hpa, get_bind_apply]
  have hi' : (firstIdx fun i => !((k.setLock true).frametable i).used) = some i := hi
  rw [hi']
  dsimp only
  rw [modify_bind_apply, releaseFramelock_run rfl]
  show Except.ok ((), (k.registerFrame i pa p va).setLock false, []) = _
  have hlock : (k.registerFrame i pa p va).framelock = false := h
  rw [← hlock]
  rfl

/-- **No second try.** With a full table `frametable_alloc` calls `clock_evict` while it holds
`framelock`, and `clock_evict` takes that lock: the call panics, whatever its recursive call would
do. -/
theorem frametableAllocBody_again {p : Option ProcId} (h : k.framelock = false) (hpa : pa ≠ 0)
    (hfull : ∀ i, (k.frametable i).used = true) :
    frametableAllocBody again me pa p va k = .error .acquire := by
  unfold frametableAllocBody
  rw [bind_of_ok (acquireFramelock_run h), if_neg hpa, get_bind_apply]
  have hnone : (firstIdx fun i => !((k.setLock true).frametable i).used) = none := by
    rw [firstIdx_eq_none]
    intro i
    show (!(k.frametable i).used) = false
    rw [hfull i]
    rfl
  rw [hnone]
  apply bind_of_error
  unfold clockEvict
  rw [get_bind_apply]
  apply bind_of_error
  unfold clockSelect
  exact bind_of_error (acquireFramelock_panic rfl)

end Register

end Xv6
