import Xv6.Vm.Kalloc
import Xv6.Vm.Residence

/-!
# The invariant of the paging kernel

`Inv c g k` puts the parts of `Ledger` and `Residence` together for a kernel state `k` and a ledger
`g`. `Ready` adds that `framelock` is free; it is what every procedure starts from and ends in.

`Quiet` is what the memory allocator may do behind the back of its callers. Every call that needs a
page can evict pages of any process; `Quiet` says that this moves pages between memory and swap and
does nothing else: no entry of a page that is not resident changes, no page changes its content, and
no frame in use is taken away.
-/

namespace Xv6

variable {D : Type}

/-- What a call in progress has set aside: the table it builds for a process beside the current one,
and the table of the process it is freeing. -/
structure Ctx where
  extra : Option (ProcId × Nat)
  stale : Option Nat

/-- Nothing is under construction. -/
def Ctx.plain : Ctx := ⟨none, none⟩

structure Inv (c : Ctx) (g : Ledger) (k : Kernel D) : Prop where
  free : FreeOk g k.image.kend k.freelist
  tree : TreeOk g k.tables
  trap : TrapOk g fun p => (k.proc p).trapframe
  pages : PagesOk c.stale g k.tables k.swaptable
  frames : FramesOk c.extra k.tables (fun p => (k.proc p).pagetable) k.frametable k.activeFrames
  extra : ∀ p r, c.extra = some (p, r) → ∀ q, (k.proc q).pagetable ≠ r

structure Ready (c : Ctx) (g : Ledger) (k : Kernel D) : Prop where
  inv : Inv c g k
  lock : k.framelock = false

/-! ## Judging evictions -/

/-- The entry chosen names the frame that the current page table of its process maps at its
address. -/
def Eviction.Apt (ev : Eviction D) : Prop :=
  ∃ p e, (ev.before.frametable ev.entry).proc = some p ∧
    ev.before.tables.entry (ev.before.proc p).pagetable (vpn (ev.before.frametable ev.entry).va) =
      some e ∧ e.getLsbD pteV = true ∧ pte2pa e = (ev.before.frametable ev.entry).pa

/-- The victim is a page of a table that no process runs on: one that is under construction. -/
def Eviction.OfNewTable (ev : Eviction D) : Prop :=
  ∃ r e, (∀ p, (ev.before.proc p).pagetable ≠ r) ∧
    ev.before.tables.entry r (vpn (ev.before.frametable ev.entry).va) = some e ∧ e.getLsbD pteV = true ∧
      pte2pa e = (ev.before.frametable ev.entry).pa

/-- No page table but `stale` maps the frame handed out. -/
def Eviction.SoundBut (stale : Option Nat) (ev : Eviction D) : Prop :=
  ∀ r v e, some r ≠ stale → ev.after.tables.entry r v = some e → e.getLsbD pteV = true →
    pte2pa e ≠ ev.pa

/-- No page table maps the frame handed out. -/
def Eviction.Sound (ev : Eviction D) : Prop := ev.SoundBut none

/-- The panics that only a wrong bookkeeping leads to. -/
def Panic.Wild : Panic → Prop
  | .swapin | .kerneltrap | .mappagesRemap | .freewalkLeaf | .loadseg => True
  | _ => False

/-- The panics of `loadseg` and `freewalk`, which say that a page table is not as it should be. -/
def Panic.OfTable : Panic → Prop
  | .loadseg | .freewalkLeaf => True
  | _ => False

theorem Panic.OfTable.wild {e : Panic} (h : e.OfTable) : e.Wild := by
  cases e <;> trivial

/-- The swap device takes no page. -/
def NoSwapOut (D : Type) [SwapStore D] : Prop :=
  ∀ c page s (d : D) r, SwapStore.swapOutPage c page s d ≠ .ok r

/-- While no second table is under construction, every eviction is apt and sound and no wild panic
occurs. With a second table an eviction is apt and sound, or neither; where there are no evictions, the
tables are still as they should be. -/
def watch [SwapStore D] (c : Ctx) : TraceM.Watch Panic (Eviction D) where
  fine ev := (ev.Apt ∧ ¬ ev.OfNewTable) ∧ ev.SoundBut c.stale
  broken ev := (c.extra ≠ none ∧ ¬ NoSwapOut D) ∧ (¬ ev.Apt ∧ ev.OfNewTable) ∧ ¬ ev.Sound
  allowed e := (c.extra = none → ¬ e.Wild) ∧ (NoSwapOut D → ¬ e.OfTable)
  allowed_of_broken h _ := ⟨fun h' => absurd h' h.1.1, fun h' => absurd h' h.1.2⟩

/-! ## The content of a user page -/

/-- What a swap device says it stores: the page in each slot. -/
abbrev View (D : Type) := D → Fin maxSwap → Page → Prop

/-- **A reliable swap device** returns for each slot the page last written to it. -/
structure Reliable [SwapStore D] (R : View D) : Prop where
  out : ∀ {me page s d d'}, SwapStore.swapOutPage me page (s : Fin maxSwap).val d = .ok ((), d') →
    R d' s page
  out_other : ∀ {me page s t d d' q}, SwapStore.swapOutPage me page (s : Fin maxSwap).val d =
    .ok ((), d') → t ≠ s → R d t q → R d' t q
  back : ∀ {me buf s d d' page q}, SwapStore.swapInPage me buf (s : Fin maxSwap).val d =
    .ok (page, d') → R d s q → page = q
  back_other : ∀ {me buf s t d d' page q}, SwapStore.swapInPage me buf (s : Fin maxSwap).val d =
    .ok (page, d') → R d t q → R d' t q
  free_other : ∀ {s t d q}, t ≠ s → R d t q → R (SwapStore.swapDiskFreeSlot (s : Fin maxSwap).val d) t q
  noteWrite : ∀ {p d t q}, R d t q → R (SwapStore.noteWrite p d) t q
  noteRead : ∀ {p d t q}, R d t q → R (SwapStore.noteRead p d) t q

/-- The content of a page with this leaf entry. -/
def Content (R : View D) (mem : Nat → Page) (disk : D) : Option Pte → Page → Prop
  | none, page => page = junk 0
  | some e, page =>
    if e.getLsbD pteV then page = mem (pte2pa e)
    else if e.getLsbD pteS then ∃ s : Fin maxSwap, swapIdx e = s ∧ R disk s page
    else page = junk 0

/-- A page in memory. -/
theorem content_valid {R : View D} {mem : Nat → Page} {disk : D} {e : Pte} {page : Page}
    (hV : e.getLsbD pteV = true) : Content R mem disk (some e) page ↔ page = mem (pte2pa e) := by
  simp [Content, hV]

/-- A page in swap. -/
theorem content_swapped {R : View D} {mem : Nat → Page} {disk : D} {e : Pte} {page : Page}
    (hV : e.getLsbD pteV = false) (hS : e.getLsbD pteS = true) :
    Content R mem disk (some e) page ↔ ∃ s : Fin maxSwap, swapIdx e = s ∧ R disk s page := by
  simp [Content, hV, hS]

/-- A page that was never touched. -/
theorem content_empty {R : View D} {mem : Nat → Page} {disk : D} {e : Pte} {page : Page}
    (hV : e.getLsbD pteV = false) (hS : e.getLsbD pteS = false) :
    Content R mem disk (some e) page ↔ page = junk 0 := by
  simp [Content, hV, hS]

/-- A page keeps its content when its frame or its slot does. -/
theorem Content.transfer {R : View D} {mem mem' : Nat → Page} {disk disk' : D} {o : Option Pte}
    {page : Page} (h : Content R mem disk o page)
    (hmem : ∀ e, o = some e → e.getLsbD pteV = true → mem' (pte2pa e) = mem (pte2pa e))
    (hdisk : ∀ e (s : Fin maxSwap), o = some e → e.getLsbD pteV = false →
      e.getLsbD pteS = true → swapIdx e = s → R disk s page → R disk' s page) :
    Content R mem' disk' o page := by
  cases o with
  | none => exact h
  | some e =>
    cases hV : e.getLsbD pteV with
    | true =>
      rw [content_valid hV] at h ⊢
      rw [hmem e rfl hV]
      exact h
    | false =>
      cases hS : e.getLsbD pteS with
      | true =>
        rw [content_swapped hV hS] at h ⊢
        obtain ⟨s, hs, hRs⟩ := h
        exact ⟨s, hs, hdisk e s rfl hV hS hs hRs⟩
      | false =>
        rw [content_empty hV hS] at h ⊢
        exact h

/-- Page `v` of the table `r` has the content `page`, wherever it is. -/
def Holds (R : View D) (k : Kernel D) (r : Nat) (v : Vpn) (page : Page) : Prop :=
  Content R k.mem k.disk (k.tables.entry r v) page

/-! ## Quiet changes -/

/-- Two records of a process that differ in its paging counters only. -/
def Proc.SameButStats (q q' : Proc) : Prop :=
  q' = { q with
    pageFaults := q'.pageFaults
    pagesEvicted := q'.pagesEvicted
    pagesSwappedIn := q'.pagesSwappedIn
    pagesSwappedOut := q'.pagesSwappedOut
    residentPages := q'.residentPages }

theorem Proc.SameButStats.refl (q : Proc) : q.SameButStats q := rfl

theorem Proc.SameButStats.trans {q q' q'' : Proc} (h : q.SameButStats q')
    (h' : q'.SameButStats q'') : q.SameButStats q'' := by
  unfold Proc.SameButStats at *
  rw [h] at h'
  exact h'

section SameButStats

variable {q q' : Proc} (h : q.SameButStats q')

include h

theorem Proc.SameButStats.pagetable : q'.pagetable = q.pagetable := by
  rw [show q' = _ from h]

theorem Proc.SameButStats.trapframe : q'.trapframe = q.trapframe := by
  rw [show q' = _ from h]

theorem Proc.SameButStats.sz : q'.sz = q.sz := by
  rw [show q' = _ from h]

theorem Proc.SameButStats.state : q'.state = q.state := by
  rw [show q' = _ from h]

end SameButStats

/-- The flags of an entry that survive eviction and a turn of the clock. -/
def SameFlags (e e' : Pte) : Prop :=
  ∀ n, n < 10 → n ≠ pteV → n ≠ pteS → n ≠ pteA → e'.getLsbD n = e.getLsbD n

structure Quiet [SwapStore D] (R : View D) (c : Ctx) (g : Ledger) (k : Kernel D) (g' : Ledger)
    (k' : Kernel D) : Prop where
  procs : ∀ p, (k.proc p).SameButStats (k'.proc p)
  image : k'.image = k.image
  active : k'.activeFrames ≤ k.activeFrames
  own : ∀ a, g a ≠ .free → (∀ r v, g a ≠ .page r v) → g' a = g a
  use : ∀ a, g a ≠ .free → g' a ≠ .free
  mem : ∀ a, g a ≠ .free → k'.mem a = k.mem a
  tables : ∀ r, (k'.tables r).isSome = (k.tables r).isSome
  mid : ∀ r i m, k.tables.midPage r i = some m → k'.tables.midPage r i = some m
  absent : ∀ r v, k.tables.entry r v = none →
    k'.tables.entry r v = none ∨ k'.tables.entry r v = some 0
  invalid : ∀ r v e, k.tables.entry r v = some e → e.getLsbD pteV = false →
    k'.tables.entry r v = some e
  valid : ∀ r v e, k.tables.entry r v = some e → e.getLsbD pteV = true →
    ∃ e', k'.tables.entry r v = some e' ∧ SameFlags e e' ∧
      (e'.getLsbD pteV = true → pte2pa e' = pte2pa e)
  special : ∀ r v e, k.tables.entry r v = some e → Special v → k'.tables.entry r v = some e
  extra : ∀ p r v e, c.extra = some (p, r) → k.tables.entry r v = some e →
    k'.tables.entry r v = some e
  content : Reliable R → ∀ r v page, ¬ Special v → Holds R k r v page → Holds R k' r v page

namespace Quiet

variable [SwapStore D] {R : View D} {c : Ctx} {g g' g'' : Ledger} {k k' k'' : Kernel D}

theorem refl : Quiet R c g k g k where
  procs _ := rfl
  image := rfl
  active := le_rfl
  own _ _ _ := rfl
  use _ h := h
  mem _ _ := rfl
  tables _ := rfl
  mid _ _ _ h := h
  absent _ _ h := Or.inl h
  invalid _ _ _ h _ := h
  valid _ _ e h _ := ⟨e, h, fun _ _ _ _ _ => rfl, fun _ => rfl⟩
  special _ _ _ h _ := h
  extra _ _ _ _ _ h := h
  content _ _ _ _ _ h := h

theorem trans (h : Quiet R c g k g' k') (h' : Quiet R c g' k' g'' k'') :
    Quiet R c g k g'' k'' := by
  refine ⟨?_, h'.image.trans h.image, h'.active.trans h.active, ?_, fun a ha => h'.use a (h.use a ha),
    ?_, ?_, ?_, ?_, ?_, ?_, ?_, ?_, ?_⟩
  · intro p
    exact (h.procs p).trans (h'.procs p)
  · intro a hfree hpage
    have ho := h.own a hfree hpage
    rw [h'.own a (by rw [ho]; exact hfree) (by rw [ho]; exact hpage), ho]
  · intro a hfree
    rw [h'.mem a (h.use a hfree), h.mem a hfree]
  · intro r
    rw [h'.tables r, h.tables r]
  · intro r i m hm
    exact h'.mid r i m (h.mid r i m hm)
  · intro r v hv
    rcases h.absent r v hv with h₁ | h₁
    · exact h'.absent r v h₁
    · exact Or.inr (h'.invalid r v 0 h₁ (BitVec.getLsbD_zero))
  · intro r v e he hV
    exact h'.invalid r v e (h.invalid r v e he hV) hV
  · intro r v e he hV
    obtain ⟨e₁, he₁, hflags, hpa⟩ := h.valid r v e he hV
    cases hV₁ : e₁.getLsbD pteV with
    | false =>
      refine ⟨e₁, h'.invalid r v e₁ he₁ hV₁, hflags, ?_⟩
      intro hV'
      rw [hV₁] at hV'
      cases hV'
    | true =>
      obtain ⟨e₂, he₂, hflags₂, hpa₂⟩ := h'.valid r v e₁ he₁ hV₁
      refine ⟨e₂, he₂, ?_, fun hV₂ => (hpa₂ hV₂).trans (hpa hV₁)⟩
      intro n hn h₁ h₂ h₃
      rw [hflags₂ n hn h₁ h₂ h₃, hflags n hn h₁ h₂ h₃]
  · intro r v e he hv
    exact h'.special r v e (h.special r v e he hv) hv
  · intro p r v e hx he
    exact h'.extra p r v e hx (h.extra p r v e hx he)
  · intro hR r v page hv hp
    exact h'.content hR r v page hv (h.content hR r v page hv hp)

/-- What quietness does not speak about. -/
theorem congr (h : Quiet R c g k g' k') (hproc : k''.proc = k'.proc) (hmem : k''.mem = k'.mem)
    (htab : k''.tables = k'.tables) (hdisk : k''.disk = k'.disk)
    (himage : k''.image = k'.image) (hactive : k''.activeFrames = k'.activeFrames) :
    Quiet R c g k g' k'' := by
  refine ⟨?_, himage.trans h.image, hactive.le.trans h.active, h.own, h.use, ?_, ?_, ?_, ?_, ?_, ?_, ?_, ?_, ?_⟩
  · rw [hproc]
    exact h.procs
  · rw [hmem]
    exact h.mem
  · rw [htab]
    exact h.tables
  · rw [htab]
    exact h.mid
  · rw [htab]
    exact h.absent
  · rw [htab]
    exact h.invalid
  · rw [htab]
    exact h.valid
  · rw [htab]
    exact h.special
  · rw [htab]
    exact h.extra
  · unfold Holds
    rw [htab, hmem, hdisk]
    exact h.content

end Quiet

end Xv6
