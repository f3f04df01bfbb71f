import Mathlib.Data.List.FinRange
import Mathlib.Logic.Function.Basic
import Xv6.Riscv

/-!
# Page tables

A user page table is a tree of three levels. The interior entries of the source are either invalid or
`PA2PTE(page) | PTE_V` for the page of the table below; here they are `none`, or `some` of that table
together with the address of its page. So a table is a tree by construction: no page of it can be
reached in two ways. Leaf entries are plain 64-bit words.

A table is looked at through `entry` (the leaf entry of a virtual page, `none` when there is no leaf
table for it), `midPage` and `leafPage` (the addresses of the table pages). The lemmas below say what
each change of a table does to these three.
-/

namespace Xv6

open Function Option

/-- The entries of a table page, in the order of the loops over them. -/
def tableSlots : List (Fin 512) := List.finRange 512

theorem tableSlots_nodup : tableSlots.Nodup := List.nodup_finRange 512

attribute [irreducible] tableSlots

instance neZero_tableSlots : NeZero 512 := ⟨by decide⟩

/-- A level-0 table. -/
structure LeafTable where
  page : Nat
  pte : Fin 512 → Pte

def LeafTable.setPte (l : LeafTable) (i₀ : Fin 512) (e : Pte) : LeafTable :=
  { l with pte := update l.pte i₀ e }

/-- A level-1 table. -/
structure MidTable where
  page : Nat
  next : Fin 512 → Option LeafTable

/-- A level-2 table; its own page is the `pagetable_t` under which the kernel knows it. -/
structure PageTable where
  next : Fin 512 → Option MidTable

namespace PageTable

def empty : PageTable := ⟨fun _ => none⟩

def leafTable (t : PageTable) (i₂ i₁ : Fin 512) : Option LeafTable :=
  (t.next i₂).bind fun m => m.next i₁

/-- The leaf entry of a virtual page. -/
def entry (t : PageTable) (v : Vpn) : Option Pte :=
  (t.leafTable v.i₂ v.i₁).map fun l => l.pte v.i₀

def midPage (t : PageTable) (i₂ : Fin 512) : Option Nat := (t.next i₂).map MidTable.page

def leafPage (t : PageTable) (i₂ i₁ : Fin 512) : Option Nat :=
  (t.leafTable i₂ i₁).map LeafTable.page

/-- Change the entries of the level-1 table under `i₂`, if there is one. -/
def mapMid (t : PageTable) (i₂ : Fin 512)
    (f : (Fin 512 → Option LeafTable) → Fin 512 → Option LeafTable) : PageTable :=
  ⟨update t.next i₂ ((t.next i₂).map fun m => ⟨m.page, f m.next⟩)⟩

/-- Overwrite a leaf entry. -/
def setEntry (t : PageTable) (v : Vpn) (e : Pte) : PageTable :=
  t.mapMid v.i₂ fun next =>
    update next v.i₁ ((next v.i₁).map fun l => l.setPte v.i₀ e)

/-- Hang an empty level-1 table at `i₂`. -/
def linkMid (t : PageTable) (i₂ : Fin 512) (pa : Nat) : PageTable :=
  ⟨update t.next i₂ (some ⟨pa, fun _ => none⟩)⟩

/-- Hang an empty level-0 table at `i₂`, `i₁`. -/
def linkLeaf (t : PageTable) (i₂ i₁ : Fin 512) (pa : Nat) : PageTable :=
  t.mapMid i₂ fun next => update next i₁ (some ⟨pa, fun _ => 0⟩)

/-- Clear a level-1 entry. -/
def unlinkLeaf (t : PageTable) (i₂ i₁ : Fin 512) : PageTable :=
  t.mapMid i₂ fun next => update next i₁ none

/-- Clear a level-2 entry. -/
def unlinkMid (t : PageTable) (i₂ : Fin 512) : PageTable :=
  ⟨update t.next i₂ none⟩

variable (t : PageTable) (v w : Vpn) (i₂ i₁ : Fin 512)

/-! ## What the changes do -/

theorem leafTable_mapMid (f : (Fin 512 → Option LeafTable) → Fin 512 → Option LeafTable)
    (j₂ j₁ : Fin 512) :
    (t.mapMid i₂ f).leafTable j₂ j₁ =
      if j₂ = i₂ then (t.next i₂).bind (fun m => f m.next j₁) else t.leafTable j₂ j₁ := by
  unfold leafTable mapMid
  by_cases h : j₂ = i₂
  · subst h
    simp [bind_map]
  · simp [h]

theorem midPage_mapMid (f : (Fin 512 → Option LeafTable) → Fin 512 → Option LeafTable)
    (j₂ : Fin 512) : (t.mapMid i₂ f).midPage j₂ = t.midPage j₂ := by
  unfold midPage mapMid
  by_cases h : j₂ = i₂
  · subst h
    simp [Function.comp_def]
  · simp [update_of_ne h]

theorem leafTable_setEntry (e : Pte) (j₂ j₁ : Fin 512) :
    (t.setEntry v e).leafTable j₂ j₁ =
      if j₂ = v.i₂ ∧ j₁ = v.i₁ then
        (t.leafTable j₂ j₁).map fun l => l.setPte v.i₀ e
      else t.leafTable j₂ j₁ := by
  rw [setEntry, leafTable_mapMid]
  by_cases h₂ : j₂ = v.i₂
  · subst h₂
    by_cases h₁ : j₁ = v.i₁
    · subst h₁
      simp [leafTable, map_bind]
    · simp [h₁, leafTable]
  · simp [h₂]

@[simp] theorem midPage_setEntry (e : Pte) (j₂ : Fin 512) :
    (t.setEntry v e).midPage j₂ = t.midPage j₂ := midPage_mapMid _ _ _ _

@[simp] theorem leafPage_setEntry (e : Pte) (j₂ j₁ : Fin 512) :
    (t.setEntry v e).leafPage j₂ j₁ = t.leafPage j₂ j₁ := by
  unfold leafPage
  rw [leafTable_setEntry]
  split
  · simp [Function.comp_def, LeafTable.setPte]
  · rfl

theorem entry_setEntry_self (e : Pte) :
    (t.setEntry v e).entry v = (t.entry v).map fun _ => e := by
  unfold entry
  rw [leafTable_setEntry]
  simp [Function.comp_def, LeafTable.setPte]

theorem entry_setEntry_of_ne (e : Pte) (h : w ≠ v) : (t.setEntry v e).entry w = t.entry w := by
  unfold entry
  rw [leafTable_setEntry]
  split
  · next heq =>
      have h₀ : w.i₀ ≠ v.i₀ := by
        intro h₀
        apply h
        cases w
        cases v
        simp_all
      simp [Function.comp_def, LeafTable.setPte, update_of_ne h₀]
  · rfl

theorem midPage_linkMid (pa : Nat) (j₂ : Fin 512) :
    (t.linkMid i₂ pa).midPage j₂ = if j₂ = i₂ then some pa else t.midPage j₂ := by
  unfold midPage linkMid
  by_cases h : j₂ = i₂
  · subst h
    simp
  · simp [h]

theorem leafTable_linkMid (pa : Nat) (h : t.midPage i₂ = none) (j₂ j₁ : Fin 512) :
    (t.linkMid i₂ pa).leafTable j₂ j₁ = t.leafTable j₂ j₁ := by
  have hnone : t.next i₂ = none := by
    simpa [midPage] using h
  unfold leafTable linkMid
  by_cases hj : j₂ = i₂
  · subst hj
    simp [hnone]
  · simp [update_of_ne hj]

/-- Where there was no level-1 table, a new empty one changes no entry. -/
theorem entry_linkMid (pa : Nat) (h : t.midPage i₂ = none) :
    (t.linkMid i₂ pa).entry w = t.entry w := by
  unfold entry
  rw [leafTable_linkMid t i₂ pa h]

theorem leafPage_linkMid (pa : Nat) (h : t.midPage i₂ = none) (j₂ j₁ : Fin 512) :
    (t.linkMid i₂ pa).leafPage j₂ j₁ = t.leafPage j₂ j₁ := by
  unfold leafPage
  rw [leafTable_linkMid t i₂ pa h]

theorem leafTable_linkLeaf (pa : Nat) (h : (t.midPage i₂).isSome) (j₂ j₁ : Fin 512) :
    (t.linkLeaf i₂ i₁ pa).leafTable j₂ j₁ =
      if j₂ = i₂ ∧ j₁ = i₁ then some ⟨pa, fun _ => 0⟩ else t.leafTable j₂ j₁ := by
  rw [linkLeaf, leafTable_mapMid]
  by_cases h₂ : j₂ = i₂
  · subst h₂
    obtain ⟨m, hm⟩ : ∃ m, t.next j₂ = some m := by
      rw [midPage, isSome_map] at h
      exact isSome_iff_exists.mp h
    by_cases h₁ : j₁ = i₁
    · subst h₁
      simp [hm]
    · simp [hm, h₁, leafTable]
  · simp [h₂]

theorem midPage_linkLeaf (pa : Nat) (j₂ : Fin 512) :
    (t.linkLeaf i₂ i₁ pa).midPage j₂ = t.midPage j₂ := midPage_mapMid _ _ _ _

theorem leafPage_linkLeaf (pa : Nat) (h : (t.midPage i₂).isSome) (j₂ j₁ : Fin 512) :
    (t.linkLeaf i₂ i₁ pa).leafPage j₂ j₁ =
      if j₂ = i₂ ∧ j₁ = i₁ then some pa else t.leafPage j₂ j₁ := by
  unfold leafPage
  rw [leafTable_linkLeaf t i₂ i₁ pa h]
  split <;> rfl

/-- A new level-0 table gives every page under it the entry `0`. -/
theorem entry_linkLeaf (pa : Nat) (h : (t.midPage i₂).isSome) :
    (t.linkLeaf i₂ i₁ pa).entry w =
      if w.i₂ = i₂ ∧ w.i₁ = i₁ then some 0 else t.entry w := by
  unfold entry
  rw [leafTable_linkLeaf t i₂ i₁ pa h]
  split <;> rfl

theorem leafTable_unlinkLeaf (j₂ j₁ : Fin 512) :
    (t.unlinkLeaf i₂ i₁).leafTable j₂ j₁ =
      if j₂ = i₂ ∧ j₁ = i₁ then none else t.leafTable j₂ j₁ := by
  rw [unlinkLeaf, leafTable_mapMid]
  by_cases h₂ : j₂ = i₂
  · subst h₂
    by_cases h₁ : j₁ = i₁
    · subst h₁
      simp
    · simp [h₁, leafTable]
  · simp [h₂]

theorem midPage_unlinkLeaf (j₂ : Fin 512) :
    (t.unlinkLeaf i₂ i₁).midPage j₂ = t.midPage j₂ := midPage_mapMid _ _ _ _

theorem leafPage_unlinkLeaf (j₂ j₁ : Fin 512) :
    (t.unlinkLeaf i₂ i₁).leafPage j₂ j₁ =
      if j₂ = i₂ ∧ j₁ = i₁ then none else t.leafPage j₂ j₁ := by
  unfold leafPage
  rw [leafTable_unlinkLeaf]
  split <;> rfl

theorem entry_unlinkLeaf :
    (t.unlinkLeaf i₂ i₁).entry w =
      if w.i₂ = i₂ ∧ w.i₁ = i₁ then none else t.entry w := by
  unfold entry
  rw [leafTable_unlinkLeaf]
  split <;> rfl

theorem leafTable_unlinkMid (j₂ j₁ : Fin 512) :
    (t.unlinkMid i₂).leafTable j₂ j₁ = if j₂ = i₂ then none else t.leafTable j₂ j₁ := by
  unfold leafTable unlinkMid
  by_cases h : j₂ = i₂
  · subst h
    simp
  · simp [h]

theorem midPage_unlinkMid (j₂ : Fin 512) :
    (t.unlinkMid i₂).midPage j₂ = if j₂ = i₂ then none else t.midPage j₂ := by
  unfold midPage unlinkMid
  by_cases h : j₂ = i₂
  · subst h
    simp
  · simp [h]

theorem leafPage_unlinkMid (j₂ j₁ : Fin 512) :
    (t.unlinkMid i₂).leafPage j₂ j₁ = if j₂ = i₂ then none else t.leafPage j₂ j₁ := by
  unfold leafPage
  rw [leafTable_unlinkMid]
  split <;> rfl

theorem entry_unlinkMid :
    (t.unlinkMid i₂).entry w = if w.i₂ = i₂ then none else t.entry w := by
  unfold entry
  rw [leafTable_unlinkMid]
  split <;> rfl

/-- An entry stands in a level-0 table that hangs under a level-1 table. -/
theorem entry_isSome_iff :
    (t.entry w).isSome ↔ (t.midPage w.i₂).isSome ∧ (t.leafPage w.i₂ w.i₁).isSome := by
  simp only [entry, leafPage, leafTable, midPage, isSome_map]
  cases t.next w.i₂ with
  | none => simp
  | some m => simp

end PageTable

/-! ## All page tables -/

/-- The page tables of the system, each under the address of its root page. -/
abbrev Tables := Nat → Option PageTable

namespace Tables

variable (T : Tables)

/-- The leaf entry of page `v` in the table `r`. -/
def entry (r : Nat) (v : Vpn) : Option Pte := (T r).bind fun t => t.entry v

def midPage (r : Nat) (i₂ : Fin 512) : Option Nat := (T r).bind fun t => t.midPage i₂

def leafPage (r : Nat) (i₂ i₁ : Fin 512) : Option Nat := (T r).bind fun t => t.leafPage i₂ i₁

/-- Change the table `r`, if there is one. -/
def mapTable (r : Nat) (f : PageTable → PageTable) : Tables :=
  update T r ((T r).map f)

/-- `*pte = e` for the leaf entry of page `v` in the table `r`. -/
def setEntry (r : Nat) (v : Vpn) (e : Pte) : Tables := T.mapTable r fun t => t.setEntry v e

def linkMid (r : Nat) (i₂ : Fin 512) (pa : Nat) : Tables := T.mapTable r fun t => t.linkMid i₂ pa

def linkLeaf (r : Nat) (i₂ i₁ : Fin 512) (pa : Nat) : Tables :=
  T.mapTable r fun t => t.linkLeaf i₂ i₁ pa

def unlinkLeaf (r : Nat) (i₂ i₁ : Fin 512) : Tables := T.mapTable r fun t => t.unlinkLeaf i₂ i₁

def unlinkMid (r : Nat) (i₂ : Fin 512) : Tables := T.mapTable r fun t => t.unlinkMid i₂

variable {T}

theorem entry_mapTable (r r' : Nat) (f : PageTable → PageTable) (v : Vpn) :
    (T.mapTable r f).entry r' v =
      if r' = r then (T r).bind (fun t => (f t).entry v) else T.entry r' v := by
  unfold entry mapTable
  by_cases h : r' = r
  · subst h
    simp [bind_map]
  · simp [h]

theorem midPage_mapTable (r r' : Nat) (f : PageTable → PageTable) (i₂ : Fin 512) :
    (T.mapTable r f).midPage r' i₂ =
      if r' = r then (T r).bind (fun t => (f t).midPage i₂) else T.midPage r' i₂ := by
  unfold midPage mapTable
  by_cases h : r' = r
  · subst h
    simp [bind_map]
  · simp [h]

theorem leafPage_mapTable (r r' : Nat) (f : PageTable → PageTable) (i₂ i₁ : Fin 512) :
    (T.mapTable r f).leafPage r' i₂ i₁ =
      if r' = r then (T r).bind (fun t => (f t).leafPage i₂ i₁) else T.leafPage r' i₂ i₁ := by
  unfold leafPage mapTable
  by_cases h : r' = r
  · subst h
    simp [bind_map]
  · simp [h]

theorem mapTable_of_ne {r r' : Nat} {f : PageTable → PageTable} (h : r' ≠ r) :
    T.mapTable r f r' = T r' := update_of_ne h _ _

@[simp] theorem isSome_mapTable (r r' : Nat) (f : PageTable → PageTable) :
    (T.mapTable r f r').isSome = (T r').isSome := by
  unfold mapTable
  by_cases h : r' = r
  · subst h
    simp
  · simp [h]

/-- Writing one leaf entry: what every lookup sees afterwards. -/
theorem entry_setEntry (r r' : Nat) (v w : Vpn) (e : Pte) :
    (T.setEntry r v e).entry r' w =
      if r' = r ∧ w = v then (T.entry r v).map (fun _ => e) else T.entry r' w := by
  rw [setEntry, entry_mapTable]
  by_cases hr : r' = r
  · subst hr
    by_cases hw : w = v
    · subst hw
      simp [entry, map_bind, PageTable.entry_setEntry_self]
    · simp [entry, hw, PageTable.entry_setEntry_of_ne]
  · simp [hr]

@[simp] theorem midPage_setEntry (r r' : Nat) (v : Vpn) (e : Pte) (i₂ : Fin 512) :
    (T.setEntry r v e).midPage r' i₂ = T.midPage r' i₂ := by
  rw [setEntry, midPage_mapTable]
  by_cases hr : r' = r
  · subst hr
    simp [midPage]
  · simp [hr]

@[simp] theorem leafPage_setEntry (r r' : Nat) (v : Vpn) (e : Pte) (i₂ i₁ : Fin 512) :
    (T.setEntry r v e).leafPage r' i₂ i₁ = T.leafPage r' i₂ i₁ := by
  rw [setEntry, leafPage_mapTable]
  by_cases hr : r' = r
  · subst hr
    simp [leafPage]
  · simp [hr]

@[simp] theorem isSome_setEntry (r r' : Nat) (v : Vpn) (e : Pte) :
    (T.setEntry r v e r').isSome = (T r').isSome := isSome_mapTable _ _ _

/-- Two states of the page tables with the same table pages. -/
structure SameShape (T T' : Tables) : Prop where
  mid : ∀ r i₂, T'.midPage r i₂ = T.midPage r i₂
  leaf : ∀ r i₂ i₁, T'.leafPage r i₂ i₁ = T.leafPage r i₂ i₁

theorem SameShape.refl : SameShape T T := ⟨fun _ _ => rfl, fun _ _ _ => rfl⟩

theorem SameShape.trans {T T' T'' : Tables} (h : SameShape T T') (h' : SameShape T' T'') :
    SameShape T T'' :=
  ⟨fun r i₂ => (h'.mid r i₂).trans (h.mid r i₂),
    fun r i₂ i₁ => (h'.leaf r i₂ i₁).trans (h.leaf r i₂ i₁)⟩

theorem SameShape.setEntry (r : Nat) (v : Vpn) (e : Pte) : SameShape T (T.setEntry r v e) :=
  ⟨fun _ _ => midPage_setEntry .., fun _ _ _ => leafPage_setEntry ..⟩

/-! ### Links -/

section Links

variable {r : Nat} {t : PageTable} (hr : T r = some t) (r' : Nat) (i₂ i₁ : Fin 512) (pa : Nat)

include hr

theorem midPage_linkMid (j₂ : Fin 512) :
    (T.linkMid r i₂ pa).midPage r' j₂ =
      if r' = r ∧ j₂ = i₂ then some pa else T.midPage r' j₂ := by
  rw [linkMid, midPage_mapTable]
  by_cases h : r' = r
  · subst h
    simp [midPage, hr, PageTable.midPage_linkMid]
  · simp [h]

theorem leafPage_linkMid (h₂ : T.midPage r i₂ = none) (j₂ j₁ : Fin 512) :
    (T.linkMid r i₂ pa).leafPage r' j₂ j₁ = T.leafPage r' j₂ j₁ := by
  rw [linkMid, leafPage_mapTable]
  by_cases h : r' = r
  · subst h
    simp only [midPage, hr, bind_some] at h₂
    simp [leafPage, hr, PageTable.leafPage_linkMid _ _ _ h₂]
  · simp [h]

theorem entry_linkMid (h₂ : T.midPage r i₂ = none) (w : Vpn) :
    (T.linkMid r i₂ pa).entry r' w = T.entry r' w := by
  rw [linkMid, entry_mapTable]
  by_cases h : r' = r
  · subst h
    simp only [midPage, hr, bind_some] at h₂
    simp [entry, hr, PageTable.entry_linkMid _ _ _ _ h₂]
  · simp [h]

theorem midPage_linkLeaf (j₂ : Fin 512) :
    (T.linkLeaf r i₂ i₁ pa).midPage r' j₂ = T.midPage r' j₂ := by
  rw [linkLeaf, midPage_mapTable]
  by_cases h : r' = r
  · subst h
    simp [midPage, hr, PageTable.midPage_linkLeaf]
  · simp [h]

theorem leafPage_linkLeaf (h₂ : (T.midPage r i₂).isSome) (j₂ j₁ : Fin 512) :
    (T.linkLeaf r i₂ i₁ pa).leafPage r' j₂ j₁ =
      if r' = r ∧ j₂ = i₂ ∧ j₁ = i₁ then some pa else T.leafPage r' j₂ j₁ := by
  rw [linkLeaf, leafPage_mapTable]
  by_cases h : r' = r
  · subst h
    simp only [midPage, hr, bind_some] at h₂
    simp [leafPage, hr, PageTable.leafPage_linkLeaf _ _ _ _ h₂]
  · simp [h]

theorem entry_linkLeaf (h₂ : (T.midPage r i₂).isSome) (w : Vpn) :
    (T.linkLeaf r i₂ i₁ pa).entry r' w =
      if r' = r ∧ w.i₂ = i₂ ∧ w.i₁ = i₁ then some 0 else T.entry r' w := by
  rw [linkLeaf, entry_mapTable]
  by_cases h : r' = r
  · subst h
    simp only [midPage, hr, bind_some] at h₂
    simp [entry, hr, PageTable.entry_linkLeaf _ _ _ _ _ h₂]
  · simp [h]

theorem midPage_unlinkLeaf (j₂ : Fin 512) :
    (T.unlinkLeaf r i₂ i₁).midPage r' j₂ = T.midPage r' j₂ := by
  rw [unlinkLeaf, midPage_mapTable]
  by_cases h : r' = r
  · subst h
    simp [midPage, hr, PageTable.midPage_unlinkLeaf]
  · simp [h]

theorem leafPage_unlinkLeaf (j₂ j₁ : Fin 512) :
    (T.unlinkLeaf r i₂ i₁).leafPage r' j₂ j₁ =
      if r' = r ∧ j₂ = i₂ ∧ j₁ = i₁ then none else T.leafPage r' j₂ j₁ := by
  rw [unlinkLeaf, leafPage_mapTable]
  by_cases h : r' = r
  · subst h
    simp [leafPage, hr, PageTable.leafPage_unlinkLeaf]
  · simp [h]

theorem entry_unlinkLeaf (w : Vpn) :
    (T.unlinkLeaf r i₂ i₁).entry r' w =
      if r' = r ∧ w.i₂ = i₂ ∧ w.i₁ = i₁ then none else T.entry r' w := by
  rw [unlinkLeaf, entry_mapTable]
  by_cases h : r' = r
  · subst h
    simp [entry, hr, PageTable.entry_unlinkLeaf]
  · simp [h]

theorem midPage_unlinkMid (j₂ : Fin 512) :
    (T.unlinkMid r i₂).midPage r' j₂ = if r' = r ∧ j₂ = i₂ then none else T.midPage r' j₂ := by
  rw [unlinkMid, midPage_mapTable]
  by_cases h : r' = r
  · subst h
    simp [midPage, hr, PageTable.midPage_unlinkMid]
  · simp [h]

theorem leafPage_unlinkMid (j₂ j₁ : Fin 512) :
    (T.unlinkMid r i₂).leafPage r' j₂ j₁ =
      if r' = r ∧ j₂ = i₂ then none else T.leafPage r' j₂ j₁ := by
  rw [unlinkMid, leafPage_mapTable]
  by_cases h : r' = r
  · subst h
    simp [leafPage, hr, PageTable.leafPage_unlinkMid]
  · simp [h]

theorem entry_unlinkMid (w : Vpn) :
    (T.unlinkMid r i₂).entry r' w = if r' = r ∧ w.i₂ = i₂ then none else T.entry r' w := by
  rw [unlinkMid, entry_mapTable]
  by_cases h : r' = r
  · subst h
    simp [entry, hr, PageTable.entry_unlinkMid]
  · simp [h]

end Links

/-- An entry stands in a level-0 table that hangs under a level-1 table. -/
theorem entry_isSome_iff (r : Nat) (w : Vpn) :
    (T.entry r w).isSome ↔ (T.midPage r w.i₂).isSome ∧ (T.leafPage r w.i₂ w.i₁).isSome := by
  unfold entry midPage leafPage
  cases T r with
  | none => simp
  | some t => simpa using PageTable.entry_isSome_iff t w

end Tables

end Xv6
