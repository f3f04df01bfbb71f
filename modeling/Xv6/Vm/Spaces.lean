import Xv6.Vm.GrowSpec
import Xv6.Vm.Proc

/-!
# Processes and their address spaces

The process table and the page tables belong together: `Spaces` says that each page table is that of
one process, that the size of the process covers its user pages, and that beside these it maps the
trampoline and the trapframe of the process only. The lemmas say how this survives the changes that
calls make: pages come and go below the sizes, a process gets a table, and a process gives its table up.
-/

namespace Xv6

open Function Tables

variable {D : Type} {k k' k₁ k₂ : Kernel D} {c : Ctx} {g g₁ : Ledger} {r pt pa : Nat} {v : Vpn} {e : Pte}
  {p : ProcId}

/-! ## One table -/

/-- A page the allocator handed out is the root of no table. -/
theorem Inv.no_table (h : Inv c g k) (hpa : g pa = .free ∨ ∃ r v, g pa = .page r v) :
    k.tables pa = none := by
  cases ht : k.tables pa with
  | none => rfl
  | some t =>
    have hroot := h.tree.root pa (by rw [ht]; rfl)
    rcases hpa with hpa | ⟨r, v, hpa⟩
    · rw [hroot] at hpa
      cases hpa
    · rw [hroot] at hpa
      cases hpa

theorem Apart.setEntry : Apart r k (k.setEntry r v e) := by
  have hentry : ∀ r' w, r' ≠ r → (k.setEntry r v e).tables.entry r' w = k.tables.entry r' w := by
    intro r' w hr'
    rw [Kernel.setEntry_tables, entry_setEntry, if_neg fun hf => hr' hf.1]
  refine ⟨fun _ => rfl, rfl, ?_, ?_, ?_⟩
  · intro r' _
    rw [Kernel.setEntry_tables, isSome_setEntry]
  · intro r' w e' hr' _ he' _
    rw [← hentry r' w hr']
    exact he'
  · intro r' w hr' he e' he'
    rw [hentry r' w hr'] at he'
    exact he e' he'

/-- Writing one entry of a table leaves its other pages empty. -/
theorem Tables.Empty.setEntry {T : Tables} {w : Vpn} (h : T.Empty r w) (hne : w ≠ v) :
    (T.setEntry r v e).Empty r w := by
  intro e' he'
  rw [entry_setEntry, if_neg fun hf => hne hf.2] at he'
  exact h e' he'

/-- The page `v` of the table `r` maps `pa` now; its other pages are as they were. -/
structure Placed (r : Nat) (v : Vpn) (pa : Nat) (k k' : Kernel D) : Prop where
  apart : Apart r k k'
  table : (k'.tables r).isSome = (k.tables r).isSome
  here : ∀ e, k'.tables.entry r v = some e → pte2pa e = pa
  special : ∀ w e, w ≠ v → Special w → k'.tables.entry r w = some e → e ≠ 0 → k.tables.entry r w = some e
  empty : ∀ w, w ≠ v → k.tables.Empty r w → k'.tables.Empty r w

theorem Calm.placed {x : Option (ProcId × Nat)} (h : Calm x (fun _ _ => False) k k₁)
    (hpa : pte2pa e = pa) : Placed r v pa k (k₁.setEntry r v e) := by
  refine ⟨(h.apart fun _ _ hf => hf.elim).trans .setEntry, ?_, ?_, ?_, ?_⟩
  · rw [Kernel.setEntry_tables, isSome_setEntry]
    exact h.tables r
  · intro e' he'
    rw [Kernel.setEntry_tables, entry_setEntry, if_pos ⟨rfl, rfl⟩] at he'
    obtain ⟨-, -, rfl⟩ := Option.map_eq_some_iff.mp he'
    exact hpa
  · intro w e' hw hs he' h0
    rw [Kernel.setEntry_tables, entry_setEntry, if_neg fun hf => hw hf.2] at he'
    exact h.special r w e' hs he' h0
  · intro w hw he
    exact (h.empty r w id he).setEntry hw

/-- The table `pt` came into being, with the pages `tramp` and `tf` at their places and no user page. -/
structure Created (tf pt : Nat) (k k' : Kernel D) : Prop where
  apart : Apart pt k k'
  absent : k.tables pt = none
  table : (k'.tables pt).isSome
  user : k'.tables.EmptyFrom pt 0
  special : ∀ v e, Special v → k'.tables.entry pt v = some e → e.getLsbD pteV = true →
    pte2pa e = k'.image.trampoline ∨ pte2pa e = tf

/-! ## Address spaces and their processes -/

/-- The address space of the process `q` among the tables `T`: its size covers the user pages, and
beside them it maps the trampoline and its own trapframe only. -/
structure SpaceOk (T : Tables) (tramp : Nat) (q : Proc) : Prop where
  size : q.sz ≤ trapframe
  table : q.pagetable ≠ 0 → (T q.pagetable).isSome
  above : q.pagetable ≠ 0 → T.EmptyFrom q.pagetable (pgroundup q.sz)
  special : q.pagetable ≠ 0 → ∀ v e, Special v → T.entry q.pagetable v = some e →
    e.getLsbD pteV = true → pte2pa e = tramp ∨ pte2pa e = q.trapframe
  vacant : q.state = .unused → q.pagetable = 0 ∧ q.trapframe = 0 ∧ q.sz = 0

theorem SpaceOk.transfer {T T' : Tables} {tramp : Nat} {q q' : Proc} (h : SpaceOk T tramp q)
    (hsame : q.SameButStats q')
    (hsome : q.pagetable ≠ 0 → (T' q.pagetable).isSome = (T q.pagetable).isSome)
    (hempty : q.pagetable ≠ 0 → ∀ v, pgroundup q.sz ≤ v.addr → T.Empty q.pagetable v →
      T'.Empty q.pagetable v)
    (hspecial : q.pagetable ≠ 0 → ∀ v e, Special v → T'.entry q.pagetable v = some e → e ≠ 0 →
      T.entry q.pagetable v = some e) : SpaceOk T' tramp q' := by
  refine ⟨?_, ?_, ?_, ?_, ?_⟩
  · rw [hsame.sz]
    exact h.size
  · rw [hsame.pagetable]
    exact fun hq => (hsome hq).trans (h.table hq)
  · rw [hsame.pagetable, hsame.sz]
    exact fun hq v hv ha => hempty hq v ha (h.above hq v hv ha)
  · rw [hsame.pagetable, hsame.trapframe]
    intro hq v e hv he hV
    refine h.special hq v e hv (hspecial hq v e hv he ?_) hV
    rintro rfl
    simp at hV
  · rw [hsame.state, hsame.pagetable, hsame.trapframe, hsame.sz]
    exact h.vacant

/-- Each page table belongs to one process, and every process has its address space in order. -/
structure Spaces (k : Kernel D) : Prop where
  null : k.tables 0 = none
  each : ∀ p, SpaceOk k.tables k.image.trampoline (k.proc p)
  owner : ∀ r, (k.tables r).isSome → ∃ p, (k.proc p).pagetable = r
  inj : ∀ p q, (k.proc p).pagetable ≠ 0 → (k.proc p).pagetable = (k.proc q).pagetable → p = q

namespace Spaces

/-- The null pointer is no table. -/
theorem ne_zero (h : Spaces k) (he : k.tables.entry r v = some e) : r ≠ 0 := by
  rintro rfl
  simp [entry, h.null] at he

/-- Filling pages below the sizes of their processes. -/
theorem calm {X : Nat → Vpn → Prop} (h : Spaces k) (hc : Calm none X k k')
    (hX : ∀ p v, X (k.proc p).pagetable v → v.addr < pgroundup (k.proc p).sz) : Spaces k' := by
  have hpt := fun q => (hc.procs q).pagetable
  refine ⟨?_, ?_, ?_, ?_⟩
  · have hnull := hc.tables 0
    rw [h.null] at hnull
    simpa using hnull
  · intro p
    rw [hc.image]
    refine (h.each p).transfer (hc.procs p) (fun _ => hc.tables _) ?_ fun _ => hc.special _
    intro _ v ha
    exact hc.empty _ v fun hf => absurd (hX p v hf) (Nat.not_lt.mpr ha)
  · intro r hr
    rw [hc.tables] at hr
    obtain ⟨p, hp⟩ := h.owner r hr
    exact ⟨p, (hpt p).trans hp⟩
  · intro p q hp hpq
    rw [hpt] at hp
    rw [hpt, hpt] at hpq
    exact h.inj p q hp hpq

/-- One process changes but keeps its table. -/
theorem updProc (h : Spaces k) {f : Proc → Proc} (hf : ∀ q, (f q).pagetable = q.pagetable)
    (hp : SpaceOk k.tables k.image.trampoline (f (k.proc p))) : Spaces (k.updProc p f) := by
  have hpt := Kernel.updProc_pagetable (k := k) hf p
  refine ⟨h.null, ?_, ?_, ?_⟩
  · intro q
    show SpaceOk k.tables k.image.trampoline (update k.proc p (f (k.proc p)) q)
    by_cases hq : q = p
    · rw [hq, update_self]
      exact hp
    · rw [update_of_ne hq]
      exact h.each q
  · intro r hr
    obtain ⟨q, hq⟩ := h.owner r hr
    exact ⟨q, (hpt q).trans hq⟩
  · intro q q' hq hqq
    rw [hpt] at hq
    rw [hpt, hpt] at hqq
    exact h.inj q q' hq hqq

/-- A process gets the table that was made for it. -/
theorem adopt (h : Spaces k) (hc : Created (k.proc p).trapframe pt k k') (h0 : pt ≠ 0)
    (hp : (k.proc p).pagetable = 0) (hused : (k.proc p).state ≠ .unused) :
    Spaces (k'.updProc p fun q => { q with pagetable := pt }) := by
  have hpt := fun q => (hc.apart.procs q).pagetable
  have hother : ∀ q, q ≠ p → (k'.updProc p fun q => { q with pagetable := pt }).proc q = k'.proc q :=
    fun q hq => update_of_ne hq _ _
  have hself : (k'.updProc p fun q => { q with pagetable := pt }).proc p =
      { k'.proc p with pagetable := pt } := update_self ..
  have hne : ∀ q, (k.proc q).pagetable ≠ pt := by
    intro q heq
    have htable := (h.each q).table (by rw [heq]; exact h0)
    rw [heq, hc.absent] at htable
    cases htable
  refine ⟨?_, ?_, ?_, ?_⟩
  · show k'.tables 0 = none
    have hnull := hc.apart.tables 0 h0.symm
    rw [h.null] at hnull
    simpa using hnull
  · intro q
    by_cases hq : q = p
    · subst hq
      rw [hself]
      refine ⟨?_, fun _ => hc.table, ?_, ?_, ?_⟩
      · show (k'.proc q).sz ≤ trapframe
        rw [(hc.apart.procs q).sz]
        exact (h.each q).size
      · exact fun _ v hv _ => hc.user v hv (Nat.zero_le _)
      · intro _ v e hv he hV
        show _ ∨ pte2pa e = (k'.proc q).trapframe
        rw [(hc.apart.procs q).trapframe]
        exact hc.special v e hv he hV
      · intro hst
        change (k'.proc q).state = _ at hst
        rw [(hc.apart.procs q).state] at hst
        exact absurd hst hused
    · rw [hother q hq]
      show SpaceOk k'.tables k'.image.trampoline _
      rw [hc.apart.image]
      exact (h.each q).transfer (hc.apart.procs q) (fun _ => hc.apart.tables _ (hne q))
        (fun _ v _ => hc.apart.empty _ v (hne q)) fun _ v e => hc.apart.special _ v e (hne q)
  · intro r hr
    by_cases hrp : r = pt
    · exact ⟨p, by rw [hself, hrp]⟩
    · obtain ⟨q, hq⟩ := h.owner r ((hc.apart.tables r hrp).symm.trans hr)
      have hqp : q ≠ p := by
        rintro rfl
        rw [← hq, hp] at hr hrp
        have hnull := (hc.apart.tables 0 hrp).symm.trans hr
        rw [h.null] at hnull
        cases hnull
      exact ⟨q, by rw [hother q hqp, hpt]; exact hq⟩
  · intro q q' hq hqq
    by_cases hqp : q = p
    · by_cases hqp' : q' = p
      · rw [hqp, hqp']
      · rw [hqp, hself, hother q' hqp', hpt] at hqq
        exact absurd hqq.symm (hne q')
    · rw [hother q hqp, hpt] at hq hqq
      by_cases hqp' : q' = p
      · rw [hqp', hself] at hqq
        exact absurd hqq (hne q)
      · rw [hother q' hqp', hpt] at hqq
        exact h.inj q q' hq hqq

/-- A process gives its table up. -/
theorem drop (h : Spaces k) (hproc : ∀ q, q ≠ p → k₁.proc q = k.proc q)
    (htf : (k₁.proc p).trapframe = 0) (htab : k₁.tables = k.tables) (himage : k₁.image = k.image)
    (happart : Apart (k.proc p).pagetable k₁ k₂) (hgone : k₂.tables (k.proc p).pagetable = none) :
    Spaces (k₂.updProc p Proc.release) := by
  have hother : ∀ q, q ≠ p → (k₂.updProc p Proc.release).proc q = k₂.proc q :=
    fun q hq => update_of_ne hq _ _
  have hself : (k₂.updProc p Proc.release).proc p = (k₂.proc p).release := update_self ..
  have hpt : ∀ q, q ≠ p → (k₂.proc q).pagetable = (k.proc q).pagetable := by
    intro q hq
    rw [(happart.procs q).pagetable, hproc q hq]
  refine ⟨?_, ?_, ?_, ?_⟩
  · show k₂.tables 0 = none
    by_cases h0 : 0 = (k.proc p).pagetable
    · rw [h0]
      exact hgone
    · have hnull := happart.tables 0 h0
      rw [htab, h.null] at hnull
      simpa using hnull
  · intro q
    show SpaceOk k₂.tables k₂.image.trampoline _
    by_cases hq : q = p
    · subst hq
      rw [hself]
      refine ⟨Nat.zero_le _, fun hf => absurd rfl hf, fun hf => absurd rfl hf, fun hf => absurd rfl hf,
        fun _ => ⟨rfl, ?_, rfl⟩⟩
      show (k₂.proc q).trapframe = 0
      rw [(happart.procs q).trapframe, htf]
    · rw [hother q hq, happart.image, himage]
      have hsame : (k.proc q).SameButStats (k₂.proc q) := by
        rw [← hproc q hq]
        exact happart.procs q
      have hne : (k.proc q).pagetable ≠ 0 → (k.proc q).pagetable ≠ (k.proc p).pagetable :=
        fun h0 heq => hq (h.inj q p h0 heq)
      refine (h.each q).transfer hsame ?_ ?_ ?_
      · intro h0
        rw [happart.tables _ (hne h0), htab]
      · intro h0 v _ he
        exact happart.empty _ v (hne h0) (by rw [htab]; exact he)
      · intro h0 v e hv he hne0
        rw [← htab]
        exact happart.special _ v e (hne h0) hv he hne0
  · intro r hr
    change (k₂.tables r).isSome = true at hr
    have hne : r ≠ (k.proc p).pagetable := by
      rintro rfl
      rw [hgone] at hr
      cases hr
    rw [happart.tables r hne, htab] at hr
    obtain ⟨q, hq⟩ := h.owner r hr
    have hqp : q ≠ p := by
      rintro rfl
      exact hne hq.symm
    exact ⟨q, by rw [hother q hqp, hpt q hqp]; exact hq⟩
  · intro q q' hq hqq
    have hqp : q ≠ p := by
      rintro rfl
      rw [hself] at hq
      exact hq rfl
    rw [hother q hqp, hpt q hqp] at hq hqq
    by_cases hqp' : q' = p
    · rw [hqp', hself] at hqq
      exact absurd hqq hq
    · rw [hother q' hqp', hpt q' hqp'] at hqq
      exact h.inj q q' hq hqq

end Spaces

end Xv6
