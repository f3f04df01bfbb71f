import Xv6.Vm.EvictSpec
import Xv6.Vm.Uvm

/-!
# Mapping a page

`walk(…, 1)` hangs fresh table pages into a page table and `mappages` writes a leaf entry. Table pages
come from `kalloc`, so both can evict pages on the way; what they do to existing pages is `Quiet`. A page
that was mapped is registered in the frame table by a separate call; `Inv.register` is about the two
together.
-/

namespace Xv6

open Function Tables

variable {D : Type} {k k' k₁ : Kernel D} {c : Ctx} {g g₁ : Ledger} {r pa : Nat} {o : Owner}

open TraceM

/-! ## Table pages -/

theorem Kernel.linkMid_tables (i₂ : Fin 512) :
    (k.linkMid r i₂ pa).tables = k.tables.linkMid r i₂ pa := rfl

theorem Kernel.linkLeaf_tables (i₂ i₁ : Fin 512) :
    (k.linkLeaf r i₂ i₁ pa).tables = k.tables.linkLeaf r i₂ i₁ pa := rfl

/-- A held page goes into a page table; only zero entries may appear. -/
theorem Inv.relink (h : Inv c g k) (hpa : g pa = .held) {T' : Tables}
    (htree : TreeOk (update g pa o) T')
    (hT : ∀ r v e, e ≠ 0 → (T'.entry r v = some e ↔ k.tables.entry r v = some e)) :
    Inv c (update g pa o) (k.setTables T') := by
  have hne : ∀ {e : Pte}, e.getLsbD pteV = true → e ≠ 0 := by
    rintro e hV rfl
    simp at hV
  refine ⟨?_, htree, ?_, ?_, ?_, h.extra⟩
  · exact h.free.reown (by rw [hpa]; simp) (by rw [hpa]; simp)
  · exact h.trap.reown (by rw [hpa]; simp)
  · exact (h.pages.reown (by rw [hpa]; simp) (by rw [hpa]; rfl)).congr hT
  · apply h.frames.congr
    · intro r v e he _ hV
      exact ⟨e, (hT r v e (hne hV)).mpr he, hV, rfl⟩
    · intro r v e he _ hV
      exact ⟨e, (hT r v e (hne hV)).mp he, hV, rfl⟩

variable [SwapStore D] {R : View D}

/-- Hanging a page just allocated into a table is part of a quiet change. -/
theorem Quiet.relink (h : Quiet R c g k g₁ k₁) (hpa : g pa = .free ∨ ∃ r v, g pa = .page r v)
    (ho : o ≠ .free) {T' : Tables} (hsome : ∀ r, (T' r).isSome = (k₁.tables r).isSome)
    (hmid : ∀ r i m, k₁.tables.midPage r i = some m → T'.midPage r i = some m)
    (hT : ∀ r v, T'.entry r v = k₁.tables.entry r v ∨
      (k₁.tables.entry r v = none ∧ T'.entry r v = some 0)) :
    Quiet R c g k (update g₁ pa o) (k₁.setTables T') := by
  have hkeep : ∀ {r v e}, k₁.tables.entry r v = some e → T'.entry r v = some e := by
    intro r v e he
    rcases hT r v with heq | ⟨hnone, -⟩
    · rw [heq, he]
    · rw [hnone] at he
      cases he
  refine ⟨h.procs, h.image, h.active, ?_, ?_, h.mem, ?_, ?_, ?_, ?_, ?_, ?_, ?_, ?_⟩
  · intro a hfree hpage
    have hap : a ≠ pa := by
      rintro rfl
      rcases hpa with hpa | ⟨r, v, hpa⟩
      · exact hfree hpa
      · exact hpage r v hpa
    rw [update_of_ne hap, h.own a hfree hpage]
  · intro a ha
    by_cases hap : a = pa
    · rw [hap, update_self]
      exact ho
    · rw [update_of_ne hap]
      exact h.use a ha
  · intro r
    rw [← h.tables r]
    exact hsome r
  · intro r i m hm
    exact hmid r i m (h.mid r i m hm)
  · intro r v hv
    rcases hT r v with heq | ⟨-, hzero⟩
    · show T'.entry r v = none ∨ T'.entry r v = some 0
      rw [heq]
      exact h.absent r v hv
    · exact Or.inr hzero
  · intro r v e he hV
    exact hkeep (h.invalid r v e he hV)
  · intro r v e he hV
    obtain ⟨e', he', hrest⟩ := h.valid r v e he hV
    exact ⟨e', hkeep he', hrest⟩
  · intro r v e he hv
    exact hkeep (h.special r v e he hv)
  · intro p r v e hx he
    exact hkeep (h.extra p r v e hx he)
  · intro hR r v page hv hp
    have hp₁ := h.content hR r v page hv hp
    unfold Holds at hp₁ ⊢
    show Content R k₁.mem k₁.disk (T'.entry r v) page
    rcases hT r v with heq | ⟨hnone, hzero⟩
    · rw [heq]
      exact hp₁
    · rw [hnone] at hp₁
      rw [hzero, content_empty (getLsbD_zero_entry _) (getLsbD_zero_entry _)]
      exact hp₁

/-- An allocation that ends well leaves the page in the hands of the caller. -/
theorem Got.held {g' : Ledger} (h : Got g g' pa) (hne : pa ≠ 0) :
    g' pa = .held ∧ (g pa = .free ∨ ∃ r v, g pa = .page r v) := by
  rcases h with ⟨h0, -⟩ | ⟨-, rfl, hown⟩
  · exact absurd h0 hne
  · exact ⟨update_self .., hown⟩

/-- What `walk(…, 1)` and `mappages` may do on their way. -/
def Settled (R : View D) (c : Ctx) (g : Ledger) (k k' : Kernel D) : Prop :=
  ∃ g', Ready c g' k' ∧ Quiet R c g k g' k'

/-- `walk` allocates a middle table where there is none. -/
theorem walkMid_spec (me : ProcId) {v : Vpn} (h : Ready c g k) (hr : (k.tables r).isSome) :
    Sat (watch c) (walkMid me r v) (fun ok k' => Settled R c g k k' ∧
      (ok = true → (k'.tables.midPage r v.i₂).isSome)) k := by
  unfold walkMid
  apply Sat.seq_get
  split
  · next hmid => exact Sat.ret ⟨⟨g, h, .refl⟩, fun _ => hmid⟩
  · next hmid =>
      apply Sat.seq
      apply (kalloc_spec (R := R) me h).mono
      rintro page k₁ ⟨g₁, hready, hquiet, hshape, hgot⟩
      split
      · exact Sat.ret ⟨⟨g₁, hready, hquiet⟩, fun hf => by cases hf⟩
      · next hne =>
          obtain ⟨hheld, hown⟩ := hgot.held hne
          obtain ⟨t, ht⟩ := Option.isSome_iff_exists.mp ((hquiet.tables r).trans hr)
          have hnone : k₁.tables.midPage r v.i₂ = none := by
            rw [hshape.mid]
            simpa using hmid
          have hentry := fun r' => entry_linkMid ht r' v.i₂ page hnone
          apply Sat.seq_update
          refine Sat.ret ⟨⟨update g₁ page (.mid r v.i₂), ⟨?_, hready.lock⟩, ?_⟩, ?_⟩
          · apply hready.inv.relink hheld
            · exact hready.inv.tree.linkMid ht (by rw [hheld]; rfl) hnone
            · intro r' w e _
              rw [hentry]
          · apply hquiet.relink hown (by simp)
            · intro r'
              exact isSome_mapTable ..
            · intro r' i m hm
              rw [midPage_linkMid ht, if_neg]
              · exact hm
              · rintro ⟨rfl, rfl⟩
                rw [hnone] at hm
                cases hm
            · intro r' w
              exact Or.inl (hentry r' w)
          · intro _
            rw [Kernel.linkMid_tables, midPage_linkMid ht, if_pos ⟨rfl, rfl⟩]
            rfl

/-- `walk` allocates a lowest table where there is none. -/
theorem walkLeaf_spec (me : ProcId) {v : Vpn} (h : Ready c g k)
    (hmid : (k.tables.midPage r v.i₂).isSome) :
    Sat (watch c) (walkLeaf me r v) (fun ok k' => Settled R c g k k' ∧
      (ok = true → (k'.tables.entry r v).isSome)) k := by
  unfold walkLeaf
  apply Sat.seq_get
  split
  · next hleaf =>
      refine Sat.ret ⟨⟨g, h, .refl⟩, fun _ => ?_⟩
      exact (entry_isSome_iff r v).mpr ⟨hmid, hleaf⟩
  · next hleaf =>
      apply Sat.seq
      apply (kalloc_spec (R := R) me h).mono
      rintro page k₁ ⟨g₁, hready, hquiet, hshape, hgot⟩
      split
      · exact Sat.ret ⟨⟨g₁, hready, hquiet⟩, fun hf => by cases hf⟩
      · next hne =>
          obtain ⟨hheld, hown⟩ := hgot.held hne
          have hmid₁ : (k₁.tables.midPage r v.i₂).isSome := by
            rw [hshape.mid]
            exact hmid
          obtain ⟨t, ht⟩ : ∃ t, k₁.tables r = some t := by
            cases ht : k₁.tables r with
            | none => simp [midPage, ht] at hmid₁
            | some t => exact ⟨t, rfl⟩
          have hnone : ∀ w : Vpn, w.i₂ = v.i₂ → w.i₁ = v.i₁ → k₁.tables.entry r w = none := by
            intro w h₂ h₁
            rw [← Option.not_isSome_iff_eq_none, entry_isSome_iff, h₂, h₁, hshape.leaf]
            exact fun hf => hleaf hf.2
          have hentry := fun r' => entry_linkLeaf ht r' v.i₂ v.i₁ page hmid₁
          apply Sat.seq_update
          refine Sat.ret ⟨⟨update g₁ page (.leaf r v.i₂ v.i₁), ⟨?_, hready.lock⟩, ?_⟩, ?_⟩
          · apply hready.inv.relink hheld
            · exact hready.inv.tree.linkLeaf ht (by rw [hheld]; rfl) hmid₁
            · intro r' w e he
              rw [hentry]
              split
              · next heq =>
                  obtain ⟨rfl, h₂, h₁⟩ := heq
                  rw [hnone w h₂ h₁]
                  constructor
                  · rintro ⟨⟩
                    exact absurd rfl he
                  · intro hf
                    cases hf
              · exact Iff.rfl
          · apply hquiet.relink hown (by simp)
            · intro r'
              exact isSome_mapTable ..
            · intro r' i m hm
              rw [midPage_linkLeaf ht]
              exact hm
            · intro r' w
              rw [hentry]
              split
              · next heq =>
                  obtain ⟨rfl, h₂, h₁⟩ := heq
                  exact Or.inr ⟨hnone w h₂ h₁, rfl⟩
              · exact Or.inl rfl
          · intro _
            rw [Kernel.linkLeaf_tables, hentry, if_pos ⟨rfl, rfl, rfl⟩]
            rfl

/-- `walk(…, 1)` finds an entry or gives up, and is quiet. -/
theorem walkAlloc_spec (me : ProcId) (va : Nat) (h : Ready c g k) (hr : (k.tables r).isSome) :
    Sat (watch c) (walkAlloc me r va) (fun res k' => Settled R c g k k' ∧
      ∀ ptr, res = some ptr → ptr = ⟨r, vpn va⟩ ∧ (k'.tables.entry r (vpn va)).isSome) k := by
  unfold walkAlloc
  split
  · exact Sat.panic (watch_allowed id)
  · apply Sat.seq
    apply (walkMid_spec (R := R) me h hr).mono
    rintro ok k₁ ⟨⟨g₁, hready₁, hquiet₁⟩, hmid⟩
    split
    · next hok =>
        apply Sat.seq
        apply (walkLeaf_spec (R := R) me hready₁ (hmid hok)).mono
        rintro ok' k₂ ⟨⟨g₂, hready₂, hquiet₂⟩, hleaf⟩
        have hsettled : Settled R c g k k₂ := ⟨g₂, hready₂, hquiet₁.trans hquiet₂⟩
        split
        · next hok' =>
            refine Sat.ret ⟨hsettled, ?_⟩
            rintro ptr ⟨⟩
            exact ⟨rfl, hleaf hok'⟩
        · exact Sat.ret ⟨hsettled, fun ptr hf => by cases hf⟩
    · exact Sat.ret ⟨⟨g₁, hready₁, hquiet₁⟩, fun ptr hf => by cases hf⟩

/-! ## Entries -/

/-- Nothing is mapped or swapped out at a page. -/
def Tables.Empty (T : Tables) (r : Nat) (v : Vpn) : Prop := ∀ e, T.entry r v = some e → e = 0

theorem Quiet.empty (h : Quiet R c g k g₁ k₁) {v : Vpn} (he : k.tables.Empty r v) :
    k₁.tables.Empty r v := by
  intro e he₁
  cases h₀ : k.tables.entry r v with
  | none =>
    rcases h.absent r v h₀ with h₁ | h₁
    · rw [h₁] at he₁
      cases he₁
    · rw [h₁] at he₁
      exact (Option.some.inj he₁).symm
  | some e₀ =>
    have h0 := he e₀ h₀
    subst h0
    rw [h.invalid r v 0 h₀ (getLsbD_zero_entry _)] at he₁
    exact (Option.some.inj he₁).symm

/-- **Mapping one page** into an empty entry: it fails and nothing happened, or the entry is written. -/
theorem mappages_spec (me : ProcId) (va pa : Nat) (perm : Pte) (h : Ready c g k)
    (hr : (k.tables r).isSome) (he : k.tables.Empty r (vpn va)) :
    Sat (watch c) (mappages me r va pgsize pa perm) (fun res k' => ∃ g₁ k₁, Ready c g₁ k₁ ∧
      Quiet R c g k g₁ k₁ ∧ ((res = -1 ∧ k' = k₁) ∨
        (res = 0 ∧ va % pgsize = 0 ∧ k₁.tables.entry r (vpn va) = some 0 ∧
          k' = k₁.setEntry r (vpn va) (mapEntry pa perm)))) k := by
  unfold mappages
  by_cases hal : va % pgsize = 0
  · rw [if_neg (not_not.mpr hal), if_neg (by decide), if_neg (by decide)]
    unfold mappagesLoop
    apply Sat.seq
    apply (walkAlloc_spec (R := R) me va h hr).mono
    rintro res k₁ ⟨⟨g₁, hready, hquiet⟩, hptr⟩
    cases res with
    | none => exact Sat.ret ⟨g₁, k₁, hready, hquiet, Or.inl ⟨rfl, rfl⟩⟩
    | some ptr =>
      obtain ⟨rfl, hsome⟩ := hptr ptr rfl
      obtain ⟨e, he₁⟩ := Option.isSome_iff_exists.mp hsome
      have h0 := hquiet.empty he e he₁
      subst h0
      apply Sat.seq_run (deref_run he₁)
      rw [if_neg (by simp)]
      apply Sat.seq_run (assign_run _ _)
      exact Sat.ret ⟨g₁, k₁, hready, hquiet, Or.inr ⟨rfl, hal, he₁, rfl⟩⟩
  · rw [if_pos hal]
    exact Sat.panic (watch_allowed id)

end Xv6
