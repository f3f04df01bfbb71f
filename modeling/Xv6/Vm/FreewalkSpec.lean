import Xv6.Vm.Draws

/-!
# Freeing a page table

`freewalk` gives the pages of an empty page table back, from the leaves up. Every turn of its three
loops takes one table page out of the tree and puts it on the free list.
-/

namespace Xv6

open Function Tables List

variable {D : Type} {k k' k₀ : Kernel D} {c : Ctx} {g : Ledger} {r pa : Nat}

open TraceM

/-- A table page goes to the free list; only zero entries may go with it. -/
theorem Inv.untable (h : Inv c g k) (hpa : (g pa).isTable = true) {T' : Tables}
    (htree : TreeOk (update g pa .free) T')
    (hT : ∀ r v e, e ≠ 0 → (T'.entry r v = some e ↔ k.tables.entry r v = some e)) :
    Inv c (update g pa .free) ((k.returned pa).setTables T') := by
  have hown : ∀ o, o.isTable = false → g pa ≠ o := by
    rintro o ho rfl
    rw [hpa] at ho
    cases ho
  have hne : ∀ {e : Pte}, e.getLsbD pteV = true → e ≠ 0 := by
    rintro e hV rfl
    simp at hV
  have hfix : (g pa).isFixed = false := by
    cases ho : g pa <;> rw [ho] at hpa <;> first | rfl | cases hpa
  refine ⟨?_, htree, ?_, ?_, ?_, h.extra⟩
  · exact h.free.push (hown _ rfl) (hown _ rfl)
  · exact h.trap.reown fun p => hown _ rfl
  · exact (h.pages.reown (fun r v => hown _ rfl) hfix).congr hT
  · apply h.frames.congr
    · intro r v e he _ hV
      exact ⟨e, (hT r v e (hne hV)).mpr he, hV, rfl⟩
    · intro r v e he _ hV
      exact ⟨e, (hT r v e (hne hV)).mp he, hV, rfl⟩

theorem kfree_table (h : Ready c g k) (hpa : (g pa).isTable = true) :
    kfree pa k = .ok ((), k.returned pa, []) := by
  apply kfree_unregistered h
  · intro hf
    rw [hf] at hpa
    cases hpa
  · intro r v hf
    rw [hf] at hpa
    cases hpa

/-- Parts of the table `r` were freed: its leaf tables in `P` and its level-1 tables in `Q`. -/
structure Pruned (r : Nat) (P : Fin 512 → Fin 512 → Prop) (Q : Fin 512 → Prop) (k k' : Kernel D) :
    Prop where
  procs : k'.proc = k.proc
  image : k'.image = k.image
  others : ∀ r', r' ≠ r → k'.tables r' = k.tables r'
  root : (k.tables r).isSome → (k'.tables r).isSome
  empty : (∀ v, k.tables.Empty r v) → ∀ v, k'.tables.Empty r v
  leaf : ∀ j₂ j₁, (P j₂ j₁ → k'.tables.leafPage r j₂ j₁ = none) ∧
    (¬ P j₂ j₁ → k'.tables.leafPage r j₂ j₁ = k.tables.leafPage r j₂ j₁)
  mid : ∀ j₂, (Q j₂ → k'.tables.midPage r j₂ = none) ∧
    (¬ Q j₂ → k'.tables.midPage r j₂ = k.tables.midPage r j₂)
  draws : ∀ H, Draws r H H k k'

namespace Pruned

variable {P P' P'' : Fin 512 → Fin 512 → Prop} {Q Q' Q'' : Fin 512 → Prop} {k'' : Kernel D}

theorem refl (hP : ∀ j₂ j₁, P j₂ j₁ → k.tables.leafPage r j₂ j₁ = none)
    (hQ : ∀ j₂, Q j₂ → k.tables.midPage r j₂ = none) : Pruned r P Q k k :=
  ⟨rfl, rfl, fun _ _ => rfl, id, fun h => h, fun j₂ j₁ => ⟨hP j₂ j₁, fun _ => rfl⟩,
    fun j₂ => ⟨hQ j₂, fun _ => rfl⟩, fun _ => .refl⟩

theorem trans (h : Pruned r P Q k k') (h' : Pruned r P' Q' k' k'')
    (hP : ∀ j₂ j₁, P'' j₂ j₁ ↔ P j₂ j₁ ∨ P' j₂ j₁) (hQ : ∀ j₂, Q'' j₂ ↔ Q j₂ ∨ Q' j₂) :
    Pruned r P'' Q'' k k'' := by
  -- what was freed in one of the two steps is gone, and the rest is as it was
  have hboth : ∀ {A B C : Prop} {x y z : Option Nat}, (C ↔ A ∨ B) → (A → y = none) ∧ (¬ A → y = x) →
      (B → z = none) ∧ (¬ B → z = y) → (C → z = none) ∧ (¬ C → z = x) := by
    intro A B C x y z hC hA hB
    by_cases hb : B
    · exact ⟨fun _ => hB.1 hb, fun hc => absurd (hC.mpr (.inr hb)) hc⟩
    · rw [hB.2 hb]
      exact ⟨fun hc => hA.1 ((hC.mp hc).resolve_right hb), fun hc => hA.2 fun ha => hc (hC.mpr (.inl ha))⟩
  refine ⟨h'.procs.trans h.procs, h'.image.trans h.image, ?_, fun hr => h'.root (h.root hr),
    fun he => h'.empty (h.empty he), fun j₂ j₁ => hboth (hP j₂ j₁) (h.leaf j₂ j₁) (h'.leaf j₂ j₁),
    fun j₂ => hboth (hQ j₂) (h.mid j₂) (h'.mid j₂), fun H => (h.draws H).trans (h'.draws H)⟩
  intro r' hr'
  rw [h'.others r' hr', h.others r' hr']

end Pruned

/-- A table page of the empty table `r` is taken out of the tree and freed. -/
theorem Ready.unlink {P : Fin 512 → Fin 512 → Prop} {Q : Fin 512 → Prop} (h : Ready c g k)
    (hempty : ∀ v, k.tables.Empty r v) (hpa : (g pa).isTable = true) {f : PageTable → PageTable}
    (htree : TreeOk (update g pa .free) (k.tables.mapTable r f))
    (hentry : ∀ v, Tables.Empty (k.tables.mapTable r f) r v)
    (hpage : ∀ a, k.tables.PageOf r a ↔ (k.tables.mapTable r f).PageOf r a ∨ a = pa)
    (hleaf : ∀ j₂ j₁, (P j₂ j₁ → (k.tables.mapTable r f).leafPage r j₂ j₁ = none) ∧
      (¬ P j₂ j₁ → (k.tables.mapTable r f).leafPage r j₂ j₁ = k.tables.leafPage r j₂ j₁))
    (hmid : ∀ j₂, (Q j₂ → (k.tables.mapTable r f).midPage r j₂ = none) ∧
      (¬ Q j₂ → (k.tables.mapTable r f).midPage r j₂ = k.tables.midPage r j₂)) :
    (∃ g', Ready c g' ((k.returned pa).setTables (k.tables.mapTable r f))) ∧
      Pruned r P Q k ((k.returned pa).setTables (k.tables.mapTable r f)) := by
  have hother : ∀ r' v, r' ≠ r → (k.tables.mapTable r f).entry r' v = k.tables.entry r' v := by
    intro r' v hr'
    unfold entry
    rw [mapTable_of_ne hr']
  refine ⟨⟨_, h.inv.untable hpa htree ?_, h.lock⟩, rfl, rfl, ?_, ?_, fun _ => hentry, hleaf, hmid,
    fun H => .release hpage hother ?_⟩
  · intro r' v e he
    by_cases hr' : r' = r
    · subst hr'
      exact ⟨fun hf => absurd (hentry v e hf) he, fun hf => absurd (hempty v e hf) he⟩
    · rw [hother r' v hr']
  · intro r' hr'
    exact mapTable_of_ne hr'
  · intro hr
    rw [Kernel.setTables_tables, isSome_mapTable]
    exact hr
  · rintro - ⟨v, e, he, -, hS⟩
    exact absurd (hentry v e he) (ne_zero_of_getLsbD hS)

variable {W : Watch Panic (Eviction D)} {i₂ i₁ : Fin 512}

theorem freewalkEntry_spec {e : Pte} {Q : Unit → Kernel D → Prop} (h0 : e = 0) (hQ : Q () k) :
    Sat W (freewalkEntry e) Q k := by
  subst h0
  unfold freewalkEntry
  rw [if_neg (by simp)]
  exact Sat.ret hQ

/-- `freewalk` of a lowest table. -/
theorem freewalkLeaf_spec {l : LeafTable} (h : Ready c g k) (hr : (k.tables r).isSome)
    (hempty : ∀ v, k.tables.Empty r v) (hl : k.tables.leafPage r i₂ i₁ = some l.page)
    (hzero : ∀ i₀, l.pte i₀ = 0) :
    Sat W (freewalkLeaf r i₂ i₁ l) (fun _ k' => (∃ g', Ready c g' k') ∧
      Pruned r (fun j₂ j₁ => j₂ = i₂ ∧ j₁ = i₁) (fun _ => False) k k') k := by
  obtain ⟨t, ht⟩ := Option.isSome_iff_exists.mp hr
  have hown := h.inv.tree.leaf r i₂ i₁ l.page hl
  unfold freewalkLeaf
  apply Sat.seq
  refine (Sat.forM (I := fun _ k' => k' = k) ?_ rfl).mono ?_
  · rintro i₀ _ _ rfl
    exact freewalkEntry_spec (hzero i₀) rfl
  · rintro _ k₁ rfl
    have htable : (g l.page).isTable = true := by rw [hown]; rfl
    apply Sat.seq_run (kfree_table h htable)
    apply Sat.update
    have hentry : ∀ v, Tables.Empty (unlinkLeaf k₁.tables r i₂ i₁) r v := by
      intro v e he
      rw [entry_unlinkLeaf ht] at he
      split at he
      · cases he
      · exact hempty v e he
    refine h.unlink hempty htable (h.inv.tree.unlinkLeaf ht hown) hentry
      (fun a => pageOf_unlinkLeaf ht hempty hl) (fun j₂ j₁ => ?_)
      fun j₂ => ⟨False.elim, fun _ => midPage_unlinkLeaf ht r i₂ i₁ j₂⟩
    have hleaf := leafPage_unlinkLeaf ht r i₂ i₁ j₂ j₁
    exact ⟨fun hj => hleaf.trans (if_pos ⟨rfl, hj⟩), fun hj => hleaf.trans (if_neg fun hf => hj hf.2)⟩

/-- The table pages of `m` stand in the tree `r` under `i₂`, and all its entries are zero. -/
structure MidTable.Hangs (m : MidTable) (k : Kernel D) (r : Nat) (i₂ : Fin 512) : Prop where
  page : k.tables.midPage r i₂ = some m.page
  leaf : ∀ i₁, k.tables.leafPage r i₂ i₁ = (m.next i₁).map fun l => l.page
  zero : ∀ i₁ l, m.next i₁ = some l → ∀ i₀, l.pte i₀ = 0

/-- One more slot was looked at. -/
theorem not_mem_rest {i j : Fin 512} {rest : List (Fin 512)} (hi : i ∉ rest) :
    j ∉ rest ↔ j ∉ i :: rest ∨ j = i := by
  rw [mem_cons]
  constructor
  · intro hj
    by_cases hji : j = i
    · exact .inr hji
    · exact .inl fun hf => hf.elim hji hj
  · rintro (hj | rfl)
    · exact fun hf => hj (.inr hf)
    · exact hi

theorem mem_tableSlots (i : Fin 512) : i ∈ tableSlots := by
  unfold tableSlots
  exact mem_finRange i

/-- `freewalk` of a middle table, after those below it. -/
theorem freewalkMid_spec {m : MidTable} (h : Ready c g k) (hr : (k.tables r).isSome)
    (hempty : ∀ v, k.tables.Empty r v) (hm : m.Hangs k r i₂) :
    Sat W (freewalkMid r i₂ m) (fun _ k' => (∃ g', Ready c g' k') ∧
      Pruned r (fun j₂ _ => j₂ = i₂) (fun j₂ => j₂ = i₂) k k') k := by
  unfold freewalkMid
  apply Sat.seq
  -- the leaf tables that are left still hang where they hung, and the others are gone
  refine (Sat.forM (I := fun rest k' => (∃ g', Ready c g' k') ∧ rest.Nodup ∧
    Pruned r (fun j₂ j₁ => j₂ = i₂ ∧ j₁ ∉ rest) (fun _ => False) k k') ?_
    ⟨⟨g, h⟩, tableSlots_nodup, .refl (fun j₂ j₁ hj => absurd (mem_tableSlots j₁) hj.2) fun _ hf => hf.elim⟩).mono ?_
  · rintro i₁ rest k₁ ⟨⟨g₁, hready⟩, hnodup, hpruned⟩
    obtain ⟨hnotin, hnodup⟩ := nodup_cons.mp hnodup
    have hpage := ((hpruned.leaf i₂ i₁).2 fun hf => hf.2 mem_cons_self).trans (hm.leaf i₁)
    have hnext : ∀ {k₂ : Kernel D}, Pruned r (fun j₂ j₁ => j₂ = i₂ ∧ j₁ = i₁) (fun _ => False) k₁ k₂ →
        Pruned r (fun j₂ j₁ => j₂ = i₂ ∧ j₁ ∉ rest) (fun _ => False) k k₂ := by
      intro k₂ hpruned₂
      refine hpruned.trans hpruned₂ (fun j₂ j₁ => ?_) fun _ => (or_self_iff ..).symm
      rw [not_mem_rest hnotin, and_or_left]
    cases hl : m.next i₁ with
    | none =>
      rw [hl] at hpage
      refine Sat.ret ⟨⟨g₁, hready⟩, hnodup, hnext (.refl ?_ fun _ hf => hf.elim)⟩
      rintro _ _ ⟨rfl, rfl⟩
      exact hpage
    | some l =>
      rw [hl] at hpage
      refine (freewalkLeaf_spec hready (hpruned.root hr) (hpruned.empty hempty) hpage
        (hm.zero i₁ l hl)).mono ?_
      exact fun _ k₂ h₂ => ⟨h₂.1, hnodup, hnext h₂.2⟩
  · rintro _ k₁ ⟨⟨g₁, hready⟩, -, hpruned⟩
    obtain ⟨t, ht⟩ := Option.isSome_iff_exists.mp (hpruned.root hr)
    have hempty₁ := hpruned.empty hempty
    have hpage := ((hpruned.mid i₂).2 id).trans hm.page
    have hown : g₁ m.page = .mid r i₂ := hready.inv.tree.mid r i₂ m.page hpage
    have htable : (g₁ m.page).isTable = true := by rw [hown]; rfl
    apply Sat.seq_run (kfree_table hready htable)
    apply Sat.update
    have hentry : ∀ v, Tables.Empty (unlinkMid k₁.tables r i₂) r v := by
      intro v e he
      rw [entry_unlinkMid ht] at he
      split at he
      · cases he
      · exact hempty₁ v e he
    have hbare : ∀ j₁, k₁.tables.leafPage r i₂ j₁ = none := fun j₁ => (hpruned.leaf i₂ j₁).1 ⟨rfl, not_mem_nil⟩
    obtain ⟨hready₂, hpruned₂⟩ := hready.unlink (P := fun j₂ _ => j₂ = i₂) (Q := fun j₂ => j₂ = i₂)
      hempty₁ htable (hready.inv.tree.unlinkMid ht hown) hentry
      (fun a => pageOf_unlinkMid ht hempty₁ hpage hbare)
      (fun j₂ j₁ =>
        have hleaf := leafPage_unlinkMid ht r i₂ j₂ j₁
        ⟨fun hj => hleaf.trans (if_pos ⟨rfl, hj⟩), fun hj => hleaf.trans (if_neg fun hf => hj hf.2)⟩)
      fun j₂ =>
        have hmid := midPage_unlinkMid ht r i₂ j₂
        ⟨fun hj => hmid.trans (if_pos ⟨rfl, hj⟩), fun hj => hmid.trans (if_neg fun hf => hj hf.2)⟩
    refine ⟨hready₂, hpruned.trans hpruned₂ (fun j₂ j₁ => ?_) fun _ => ⟨.inr, fun hf => hf.resolve_left id⟩⟩
    exact ⟨.inr, fun hf => hf.elim And.left id⟩

/-- **`freewalk`** of an empty table gives all its pages back. -/
theorem freewalk_spec (h : Ready c g k) (hr : (k.tables r).isSome)
    (hempty : ∀ v, k.tables.Empty r v) :
    Sat W (freewalk r) (fun _ k' => (∃ g', Ready c g' k') ∧ k'.proc = k.proc ∧
      k'.image = k.image ∧ k'.tables = update k.tables r none ∧ ∀ H, Draws r H H k k') k := by
  obtain ⟨t, ht⟩ := Option.isSome_iff_exists.mp hr
  unfold freewalk
  apply Sat.seq_get
  rw [ht]
  apply Sat.seq
  have hmid : ∀ i₂, k.tables.midPage r i₂ = (t.next i₂).map fun m => m.page := by
    intro i₂
    simp [midPage, ht, PageTable.midPage]
  have hleaf : ∀ i₂ i₁, k.tables.leafPage r i₂ i₁ =
      (t.next i₂).bind fun m => (m.next i₁).map fun l => l.page := by
    intro i₂ i₁
    simp only [leafPage, ht, PageTable.leafPage, PageTable.leafTable, Option.bind_some]
    rw [Option.map_bind]
    rfl
  refine (Sat.forM (I := fun rest k' => (∃ g', Ready c g' k') ∧ rest.Nodup ∧
    Pruned r (fun j₂ _ => j₂ ∉ rest) (fun j₂ => j₂ ∉ rest) k k') ?_
    ⟨⟨g, h⟩, tableSlots_nodup, .refl (fun j₂ _ hj => absurd (mem_tableSlots j₂) hj)
      fun j₂ hj => absurd (mem_tableSlots j₂) hj⟩).mono ?_
  · rintro i₂ rest k₁ ⟨⟨g₁, hready⟩, hnodup, hpruned⟩
    obtain ⟨hnotin, hnodup⟩ := nodup_cons.mp hnodup
    have hmid₁ := ((hpruned.mid i₂).2 (not_not.mpr mem_cons_self)).trans (hmid i₂)
    have hleaf₁ := fun i₁ => ((hpruned.leaf i₂ i₁).2 (not_not.mpr mem_cons_self)).trans (hleaf i₂ i₁)
    have hnext : ∀ {k₂ : Kernel D}, Pruned r (fun j₂ _ => j₂ = i₂) (fun j₂ => j₂ = i₂) k₁ k₂ →
        Pruned r (fun j₂ _ => j₂ ∉ rest) (fun j₂ => j₂ ∉ rest) k k₂ := fun hpruned₂ =>
      hpruned.trans hpruned₂ (fun _ _ => not_mem_rest hnotin) fun _ => not_mem_rest hnotin
    cases hm : t.next i₂ with
    | none =>
      rw [hm] at hmid₁
      simp only [hm] at hleaf₁
      refine Sat.ret ⟨⟨g₁, hready⟩, hnodup, hnext (.refl ?_ ?_)⟩
      · rintro _ j₁ rfl
        exact hleaf₁ j₁
      · rintro _ rfl
        exact hmid₁
    | some m =>
      rw [hm] at hmid₁
      simp only [hm, Option.bind_some] at hleaf₁
      have hzero : ∀ i₁ l, m.next i₁ = some l → ∀ i₀, l.pte i₀ = 0 := by
        intro i₁ l hl i₀
        apply hempty ⟨i₂, i₁, i₀⟩
        simp [entry, ht, PageTable.entry, PageTable.leafTable, hm, hl]
      refine (freewalkMid_spec hready (hpruned.root hr) (hpruned.empty hempty) ⟨hmid₁, hleaf₁, hzero⟩).mono ?_
      exact fun _ k₂ h₂ => ⟨h₂.1, hnodup, hnext h₂.2⟩
  · rintro _ k₁ ⟨⟨g₁, hready⟩, -, hpruned⟩
    have hown : g₁ r = .root r := hready.inv.tree.root r (hpruned.root hr)
    have htable : (g₁ r).isTable = true := by rw [hown]; rfl
    have hempty₁ := hpruned.empty hempty
    apply Sat.seq_run (kfree_table hready htable)
    apply Sat.update
    have hgone : update k₁.tables r none r = none := update_self ..
    have hother : ∀ r' v, r' ≠ r → entry (update k₁.tables r none) r' v = k₁.tables.entry r' v := by
      intro r' v hr'
      unfold entry
      rw [update_of_ne hr']
    refine ⟨⟨_, hready.inv.untable htable (hready.inv.tree.dropRoot hown) ?_, hready.lock⟩,
      hpruned.procs, hpruned.image, ?_, fun H => (hpruned.draws H).trans (.release (fun b => ⟨?_, ?_⟩) hother ?_)⟩
    · intro r' v e he
      by_cases hr' : r' = r
      · subst hr'
        unfold entry
        rw [update_self]
        exact ⟨fun hf => (by cases hf), fun hf => absurd (hempty₁ v e hf) he⟩
      · rw [Kernel.returned_tables, hother r' v hr']
    · funext r'
      by_cases hr' : r' = r
      · subst hr'
        simp
      · simp [update_of_ne hr', hpruned.others r' hr']
    · rintro (⟨hb, -⟩ | ⟨j₂, hj⟩ | ⟨j₂, j₁, hj⟩ | ⟨v, e, hv, he, hV, hb⟩)
      · exact .inr hb
      · rw [(hpruned.mid j₂).1 not_mem_nil] at hj
        cases hj
      · rw [(hpruned.leaf j₂ j₁).1 not_mem_nil] at hj
        cases hj
      · exact absurd (hempty₁ v e he) (ne_zero_of_getLsbD hV)
    · rintro (hf | rfl)
      · exact absurd hf (not_pageOf hgone)
      · exact .root rfl (hpruned.root hr)
    · rintro - ⟨v, e, he, -⟩
      simp [entry] at he

end Xv6
