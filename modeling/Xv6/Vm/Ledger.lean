import Mathlib.Data.Fintype.Card
import Mathlib.Data.List.Nodup
import Xv6.Vm.Kernel

/-!
# Who owns each physical page

The bookkeeping of the kernel is right when every physical page has one owner. A *ledger* `own` names
the owner of each page, and each part of the kernel state is checked against it on its own: the free
list (`FreeOk`), the pages that hold page tables (`TreeOk`), the trapframes (`TrapOk`), the user pages
and the swap slots (`PagesOk`), and the frame table (`FramesOk`). Since a page has one owner, a change
of one part leaves the others alone whenever the page concerned belongs to someone else.

The lemmas say which changes each part survives. They mention no code; the proofs about code in the
following modules put them together.
-/

namespace Xv6

open Function Tables

inductive Owner where
  /-- Not a page the allocator hands out. -/
  | idle
  /-- On the free list. -/
  | free
  /-- In the hands of a call in progress. -/
  | held
  /-- The user page `v` of the table `r`. -/
  | page (r : Nat) (v : Vpn)
  | root (r : Nat)
  | mid (r : Nat) (i₂ : Fin 512)
  | leaf (r : Nat) (i₂ i₁ : Fin 512)
  | trapframe (p : ProcId)
  deriving DecidableEq

/-- The owner of each physical page. -/
abbrev Ledger := Nat → Owner

/-- Owners whose pages the trampoline and trapframe entries of a table may map. -/
def Owner.isFixed : Owner → Bool
  | .idle | .trapframe _ => true
  | _ => false

/-- The two pages of an address space that are not user memory. -/
def Special (v : Vpn) : Prop := v = vpn trampoline ∨ v = vpn trapframe

theorem not_special_of_lt {va : Nat} (hal : va % pgsize = 0) (hlt : va < trapframe) :
    ¬ Special (vpn va) := by
  have hmax : va < maxva := lt_trans hlt (by decide)
  rintro (h | h)
  · have := vpn_injective hal (by decide) hmax (by decide) h
    subst this
    exact absurd hlt (by decide)
  · have := vpn_injective hal (by decide) hmax (by decide) h
    subst this
    exact absurd hlt (by decide)

/-- A change of owner does not disturb what belongs to others. -/
theorem own_update_of_ne {own : Nat → Owner} {a b : Nat} {o o' : Owner} (h : own a = o)
    (hne : own b ≠ o) : update own b o' a = o := by
  have hab : a ≠ b := by
    intro hab
    exact hne (hab ▸ h)
  rw [update_of_ne hab, h]

/-! ## The free list -/

structure FreeOk (own : Nat → Owner) (kend : Nat) (freelist : List Nat) : Prop where
  frame : ∀ pa, own pa ≠ .idle → pa % pgsize = 0 ∧ kend ≤ pa ∧ pa < phystop
  free : ∀ pa ∈ freelist, own pa = .free
  nodup : freelist.Nodup

namespace FreeOk

variable {own : Nat → Owner} {kend : Nat} {freelist : List Nat} {pa : Nat} {o : Owner}

theorem reown (h : FreeOk own kend freelist) (hfree : own pa ≠ .free) (hidle : own pa ≠ .idle) :
    FreeOk (update own pa o) kend freelist := by
  refine ⟨?_, ?_, h.nodup⟩
  · intro a ha
    by_cases hap : a = pa
    · subst hap
      exact h.frame a hidle
    · rw [update_of_ne hap] at ha
      exact h.frame a ha
  · intro a ha
    exact own_update_of_ne (h.free a ha) hfree

theorem pop (h : FreeOk own kend (pa :: freelist)) :
    FreeOk (update own pa o) kend freelist := by
  have hpa : own pa = .free := h.free pa List.mem_cons_self
  obtain ⟨hnotin, hnodup⟩ := List.nodup_cons.mp h.nodup
  refine ⟨?_, ?_, hnodup⟩
  · intro a ha
    by_cases hap : a = pa
    · subst hap
      exact h.frame a (by rw [hpa]; decide)
    · rw [update_of_ne hap] at ha
      exact h.frame a ha
  · intro a ha
    have hap : a ≠ pa := fun hap => hnotin (hap ▸ ha)
    rw [update_of_ne hap]
    exact h.free a (List.mem_cons_of_mem _ ha)

theorem push (h : FreeOk own kend freelist) (hfree : own pa ≠ .free) (hidle : own pa ≠ .idle) :
    FreeOk (update own pa .free) kend (pa :: freelist) := by
  have h' : FreeOk (update own pa .free) kend freelist := h.reown hfree hidle
  have hnotin : pa ∉ freelist := fun hmem => hfree (h.free pa hmem)
  refine ⟨h'.frame, ?_, List.nodup_cons.mpr ⟨hnotin, h.nodup⟩⟩
  intro a ha
  rcases List.mem_cons.mp ha with rfl | ha
  · exact update_self ..
  · exact h'.free a ha

/-- The null pointer belongs to nobody. -/
theorem ne_zero (h : FreeOk own kend freelist) (hk : 0 < kend) (hidle : own pa ≠ .idle) :
    pa ≠ 0 := by
  have := (h.frame pa hidle).2.1
  omega

end FreeOk

/-! ## Pages that hold page tables -/

structure TreeOk (own : Nat → Owner) (T : Tables) : Prop where
  root : ∀ r, (T r).isSome → own r = .root r
  mid : ∀ r i m, T.midPage r i = some m → own m = .mid r i
  leaf : ∀ r i j l, T.leafPage r i j = some l → own l = .leaf r i j

/-- Owners of pages that hold page tables. -/
def Owner.isTable : Owner → Bool
  | .root _ | .mid _ _ | .leaf _ _ _ => true
  | _ => false

namespace TreeOk

variable {own : Nat → Owner} {T T' : Tables} {pa r : Nat} {o : Owner}

theorem reown (h : TreeOk own T) (hpa : (own pa).isTable = false) :
    TreeOk (update own pa o) T := by
  refine ⟨?_, ?_, ?_⟩
  · intro r hr
    exact own_update_of_ne (h.root r hr) (by intro heq; rw [heq] at hpa; cases hpa)
  · intro r i m hm
    exact own_update_of_ne (h.mid r i m hm) (by intro heq; rw [heq] at hpa; cases hpa)
  · intro r i j l hl
    exact own_update_of_ne (h.leaf r i j l hl) (by intro heq; rw [heq] at hpa; cases hpa)

theorem setEntry (h : TreeOk own T) (v : Vpn) (e : Pte) : TreeOk own (T.setEntry r v e) := by
  refine ⟨?_, ?_, ?_⟩
  · intro r' hr
    rw [isSome_setEntry] at hr
    exact h.root r' hr
  · intro r' i m hm
    rw [midPage_setEntry] at hm
    exact h.mid r' i m hm
  · intro r' i j l hl
    rw [leafPage_setEntry] at hl
    exact h.leaf r' i j l hl

section Links

variable {t : PageTable} (hr : T r = some t) {i₂ i₁ : Fin 512}

include hr

theorem linkMid (h : TreeOk own T) (hpa : (own pa).isTable = false) (h₂ : T.midPage r i₂ = none) :
    TreeOk (update own pa (.mid r i₂)) (T.linkMid r i₂ pa) := by
  have h' : TreeOk (update own pa (.mid r i₂)) T := h.reown hpa
  refine ⟨?_, ?_, ?_⟩
  · intro r' hr'
    rw [Tables.linkMid, isSome_mapTable] at hr'
    exact h'.root r' hr'
  · intro r' j m hm
    rw [midPage_linkMid hr] at hm
    split at hm
    · next heq =>
        cases hm
        rw [heq.1, heq.2, update_self]
    · exact h'.mid r' j m hm
  · intro r' i j l hl
    rw [leafPage_linkMid hr _ _ _ h₂] at hl
    exact h'.leaf r' i j l hl

theorem linkLeaf (h : TreeOk own T) (hpa : (own pa).isTable = false)
    (h₂ : (T.midPage r i₂).isSome) :
    TreeOk (update own pa (.leaf r i₂ i₁)) (T.linkLeaf r i₂ i₁ pa) := by
  have h' : TreeOk (update own pa (.leaf r i₂ i₁)) T := h.reown hpa
  refine ⟨?_, ?_, ?_⟩
  · intro r' hr'
    rw [Tables.linkLeaf, isSome_mapTable] at hr'
    exact h'.root r' hr'
  · intro r' j m hm
    rw [midPage_linkLeaf hr] at hm
    exact h'.mid r' j m hm
  · intro r' i j l hl
    rw [leafPage_linkLeaf hr _ _ _ _ h₂] at hl
    split at hl
    · next heq =>
        cases hl
        rw [heq.1, heq.2.1, heq.2.2, update_self]
    · exact h'.leaf r' i j l hl

/-- A level-0 table taken out of the tree leaves its page to the new owner. -/
theorem unlinkLeaf (h : TreeOk own T) (hpa : own pa = .leaf r i₂ i₁) :
    TreeOk (update own pa o) (T.unlinkLeaf r i₂ i₁) := by
  refine ⟨?_, ?_, ?_⟩
  · intro r' hr'
    rw [Tables.unlinkLeaf, isSome_mapTable] at hr'
    exact own_update_of_ne (h.root r' hr') (by rw [hpa]; simp)
  · intro r' j m hm
    rw [midPage_unlinkLeaf hr] at hm
    exact own_update_of_ne (h.mid r' j m hm) (by rw [hpa]; simp)
  · intro r' i j l hl
    rw [leafPage_unlinkLeaf hr] at hl
    split at hl
    · cases hl
    · next hne =>
        apply own_update_of_ne (h.leaf r' i j l hl)
        rw [hpa]
        intro heq
        cases heq
        exact hne ⟨rfl, rfl, rfl⟩

/-- A level-1 table can be taken out of the tree once nothing hangs under it. -/
theorem unlinkMid (h : TreeOk own T) (hpa : own pa = .mid r i₂) :
    TreeOk (update own pa o) (T.unlinkMid r i₂) := by
  refine ⟨?_, ?_, ?_⟩
  · intro r' hr'
    rw [Tables.unlinkMid, isSome_mapTable] at hr'
    exact own_update_of_ne (h.root r' hr') (by rw [hpa]; simp)
  · intro r' j m hm
    rw [midPage_unlinkMid hr] at hm
    split at hm
    · cases hm
    · next hne =>
        apply own_update_of_ne (h.mid r' j m hm)
        rw [hpa]
        intro heq
        cases heq
        exact hne ⟨rfl, rfl⟩
  · intro r' i j l hl
    rw [leafPage_unlinkMid hr] at hl
    split at hl
    · cases hl
    · exact own_update_of_ne (h.leaf r' i j l hl) (by rw [hpa]; simp)

end Links

/-- A page becomes an empty table. -/
theorem newRoot (h : TreeOk own T) (hpa : (own pa).isTable = false) :
    TreeOk (update own pa (.root pa)) (update T pa (some .empty)) := by
  have h' : TreeOk (update own pa (.root pa)) T := h.reown hpa
  refine ⟨?_, ?_, ?_⟩
  · intro r' hr'
    by_cases hrp : r' = pa
    · subst hrp
      exact update_self ..
    · rw [update_of_ne hrp] at hr'
      exact h'.root r' hr'
  · intro r' j m hm
    unfold Tables.midPage at hm
    by_cases hrp : r' = pa
    · subst hrp
      simp [PageTable.empty, PageTable.midPage] at hm
    · rw [update_of_ne hrp] at hm
      exact h'.mid r' j m hm
  · intro r' i j l hl
    unfold Tables.leafPage at hl
    by_cases hrp : r' = pa
    · subst hrp
      simp [PageTable.empty, PageTable.leafPage, PageTable.leafTable] at hl
    · rw [update_of_ne hrp] at hl
      exact h'.leaf r' i j l hl

/-- An empty table becomes a page. -/
theorem dropRoot (h : TreeOk own T) (hpa : own pa = .root pa) :
    TreeOk (update own pa o) (update T pa none) := by
  refine ⟨?_, ?_, ?_⟩
  · intro r' hr'
    by_cases hrp : r' = pa
    · subst hrp
      simp at hr'
    · rw [update_of_ne hrp] at hr'
      rw [update_of_ne hrp]
      exact h.root r' hr'
  · intro r' j m hm
    unfold Tables.midPage at hm
    by_cases hrp : r' = pa
    · subst hrp
      simp at hm
    · rw [update_of_ne hrp] at hm
      exact own_update_of_ne (h.mid r' j m hm) (by rw [hpa]; simp)
  · intro r' i j l hl
    unfold Tables.leafPage at hl
    by_cases hrp : r' = pa
    · subst hrp
      simp at hl
    · rw [update_of_ne hrp] at hl
      exact own_update_of_ne (h.leaf r' i j l hl) (by rw [hpa]; simp)

end TreeOk

/-! ## Trapframes -/

structure TrapOk (own : Nat → Owner) (tf : ProcId → Nat) : Prop where
  trap : ∀ p, tf p ≠ 0 → own (tf p) = .trapframe p

namespace TrapOk

variable {own : Nat → Owner} {tf : ProcId → Nat} {pa : Nat} {o : Owner}

theorem reown (h : TrapOk own tf) (hpa : ∀ p, own pa ≠ .trapframe p) :
    TrapOk (update own pa o) tf :=
  ⟨fun p hp => own_update_of_ne (h.trap p hp) (hpa p)⟩

theorem claim (h : TrapOk own tf) (hpa : ∀ p, own pa ≠ .trapframe p) (p : ProcId) :
    TrapOk (update own pa (.trapframe p)) (update tf p pa) := by
  refine ⟨?_⟩
  intro q hq
  by_cases hqp : q = p
  · subst hqp
    rw [update_self, update_self]
  · rw [update_of_ne hqp] at hq ⊢
    exact own_update_of_ne (h.trap q hq) (hpa q)

theorem drop (h : TrapOk own tf) (p : ProcId) (hpa : ∀ q, own pa = .trapframe q → q = p) :
    TrapOk (update own pa o) (update tf p 0) := by
  refine ⟨?_⟩
  intro q hq
  by_cases hqp : q = p
  · subst hqp
    simp at hq
  · rw [update_of_ne hqp] at hq ⊢
    exact own_update_of_ne (h.trap q hq) (fun heq => hqp (hpa q heq))

end TrapOk

end Xv6
