import Xv6.Vm.Draws

/-!
# Shrinking, growing and copying address spaces

What the procedures of `kernel/vm.c` that work on ranges of pages do to the bookkeeping. Each loop has
a lemma for one turn and, by induction on the number of pages left, one for the whole loop.
-/

namespace Xv6

open Function

variable {D : Type} {k k' k₁ : Kernel D} {c : Ctx} {g g₁ : Ledger} {r a n pa : Nat} {v : Vpn} {e : Pte}

open TraceM

/-! ## Unmapping under the invariant -/

/-- The pages of `r` in `P` are empty now, and nothing else happened to the tables; their frames are free. -/
structure Cleared (r : Nat) (P : Vpn → Prop) (k k' : Kernel D) : Prop where
  procs : ∀ p, (k.proc p).SameButStats (k'.proc p)
  image : k'.image = k.image
  tables : ∀ r, (k'.tables r).isSome = (k.tables r).isSome
  cleared : ∀ v, P v → k'.tables.Empty r v
  others : ∀ r' v, ¬ (r' = r ∧ P v) → k'.tables.entry r' v = k.tables.entry r' v
  draws : ∀ H, Draws r H H k k'

namespace Cleared

variable {P Q : Vpn → Prop} {k'' : Kernel D}

theorem refl (h : ∀ v, P v → k.tables.Empty r v) : Cleared r P k k :=
  ⟨fun _ => rfl, rfl, fun _ => rfl, h, fun _ _ _ => rfl, fun _ => .refl⟩

theorem of_setEntry (hprocs : ∀ p, (k.proc p).SameButStats (k'.proc p)) (himage : k'.image = k.image)
    (htab : k'.tables = k.tables.setEntry r v 0) (hdraws : ∀ H, Draws r H H k k') : Cleared r (· = v) k k' := by
  refine ⟨hprocs, himage, ?_, ?_, ?_, hdraws⟩
  · intro r'
    rw [htab, Tables.isSome_setEntry]
  · rintro w rfl e he
    rw [htab] at he
    exact Tables.eq_zero_of_setEntry he
  · intro r' w hne
    rw [htab, Tables.entry_setEntry, if_neg hne]

theorem trans (h : Cleared r P k k') (h' : Cleared r Q k' k'') :
    Cleared r (fun v => P v ∨ Q v) k k'' := by
  refine ⟨fun p => (h.procs p).trans (h'.procs p), h'.image.trans h.image,
    fun r => (h'.tables r).trans (h.tables r), ?_, ?_, fun H => (h.draws H).trans (h'.draws H)⟩
  · intro v hv
    by_cases hQ : Q v
    · exact h'.cleared v hQ
    · intro e he
      rw [h'.others r v fun hf => hQ hf.2] at he
      exact h.cleared v (hv.resolve_right hQ) e he
  · intro r' v hne
    rw [h'.others r' v fun hf => hne ⟨hf.1, Or.inr hf.2⟩,
      h.others r' v fun hf => hne ⟨hf.1, Or.inl hf.2⟩]

theorem congr (h : Cleared r P k k') (hPQ : ∀ v, P v ↔ Q v) : Cleared r Q k k' := by
  have heq : P = Q := funext fun v => propext (hPQ v)
  rw [← heq]
  exact h

theorem empty (h : Cleared r P k k') {r' : Nat} (he : k.tables.Empty r' v) :
    k'.tables.Empty r' v := by
  by_cases hv : r' = r ∧ P v
  · obtain ⟨rfl, hP⟩ := hv
    exact h.cleared v hP
  · intro e he'
    rw [h.others r' v hv] at he'
    exact he e he'

theorem calm (h : Cleared r P k k') {X : Nat → Vpn → Prop} : Calm none X k k' := by
  refine ⟨h.procs, h.image, h.tables, ?_, fun r v _ he => h.empty he, fun _ _ _ _ hx => by cases hx⟩
  intro r' v e _ he h0
  by_cases hv : r' = r ∧ P v
  · obtain ⟨rfl, hP⟩ := hv
    exact absurd (h.cleared v hP e he) h0
  · rw [← h.others r' v hv]
    exact he

end Cleared

/-- A resident user page is unmapped and its frame freed. -/
theorem Inv.unmapResident (h : Inv c g k) (he : k.tables.entry r v = some e) (hv : ¬ Special v)
    (hV : e.getLsbD pteV = true) :
    Inv c (update g (pte2pa e) .free) ((k.freed (pte2pa e)).setEntry r v 0) ∧
      Cleared r (· = v) k ((k.freed (pte2pa e)).setEntry r v 0) := by
  have ho := (h.pages.resident he hv hV).1
  obtain ⟨i, hi, hpa⟩ := h.frames.covered he hv hV
  obtain ⟨P, hclear, hP⟩ := Kernel.clearFrame_eq (k := k) i
  have hdrop := Kernel.dropFrame_of_used hi hpa fun j hj hjpa =>
    h.frames.inj j i hj hi (hjpa.trans hpa.symm)
  have hdraws := fun H => Draws.unmapFree (H := H) he hv hV
  unfold Kernel.freed at *
  rw [hdrop, hclear] at *
  refine ⟨⟨?_, ?_, ?_, ?_, ?_, ?_⟩, .of_setEntry hP rfl rfl hdraws⟩
  · exact h.free.push (by rw [ho]; simp) (by rw [ho]; simp)
  · exact (h.tree.reown (by rw [ho]; rfl)).setEntry _ _
  · refine ⟨fun p hp => ?_⟩
    have htf := (hP p).trapframe
    change (P p).trapframe ≠ 0 at hp
    show update g (pte2pa e) .free (P p).trapframe = _
    rw [htf] at hp ⊢
    exact (h.trap.reown (by rw [ho]; simp)).trap p hp
  · exact h.pages.unmap he hv hV
  · have hpt : (fun p => (P p).pagetable) = fun p => (k.proc p).pagetable :=
      funext fun p => (hP p).pagetable
    show FramesOk c.extra (k.tables.setEntry r v 0) (fun p => (P p).pagetable)
      (update k.frametable i ⟨false, none, 0, 0⟩) (k.activeFrames - 1)
    rw [hpt]
    refine h.frames.unmap he hi hpa ?_ (getLsbD_zero_entry _) ?_ ?_
    · intro r' w e₀ h₀ hw hV₀ heq
      exact h.pages.frame_injective he hv hV h₀ hw hV₀ heq
    · rw [update_self]
      exact ⟨rfl, rfl⟩
    · intro j hj
      exact update_of_ne hj _ _
  · intro p r' hx q
    show (P q).pagetable ≠ r'
    rw [(hP q).pagetable]
    exact h.extra p r' hx q

/-- An entry that is not valid changes to another one. -/
theorem FramesOk.of_invalid {x : Option (ProcId × Nat)} {T : Tables} {f : ProcId → Nat}
    {ft : Fin maxFrames → Frame} {m : Int} {e' : Pte} (h : FramesOk x T f ft m)
    (he : T.entry r v = some e) (hV : Special v ∨ e.getLsbD pteV = false)
    (hV' : Special v ∨ e'.getLsbD pteV = false) : FramesOk x (T.setEntry r v e') f ft m := by
  apply h.congr
  · intro r' w e₀ h₀ hw hV₀
    refine ⟨e₀, ?_, hV₀, rfl⟩
    rw [Tables.entry_setEntry, if_neg]
    · exact h₀
    · rintro ⟨rfl, rfl⟩
      rw [he] at h₀
      cases h₀
      rw [hV.resolve_left hw] at hV₀
      cases hV₀
  · intro r' w e₀ h₀ hw hV₀
    refine ⟨e₀, ?_, hV₀, rfl⟩
    rw [Tables.entry_setEntry] at h₀
    split at h₀
    · next heq =>
        obtain ⟨rfl, rfl⟩ := heq
        rw [he] at h₀
        cases h₀
        rw [hV'.resolve_left hw] at hV₀
        cases hV₀
    · exact h₀

/-- The trampoline or trapframe entry is cleared. -/
theorem Inv.unmapSpecial (h : Inv c g k) (he : k.tables.entry r v = some e) (hv : Special v) :
    Inv c g (k.setEntry r v 0) :=
  ⟨h.free, h.tree.setEntry _ _, h.trap,
    h.pages.setSpecial he hv (getLsbD_zero_entry _) (fun _ => rfl) (fun hf => by simp at hf),
    h.frames.of_invalid he (Or.inl hv) (Or.inl hv), h.extra⟩

variable [SwapStore D]

/-- A swapped page is unmapped and its slot freed. -/
theorem Inv.unmapSwapped (h : Inv c g k) (he : k.tables.entry r v = some e) {s : Fin maxSwap}
    (hs : SwappedTo e s) : Inv c g ((k.freeSlot s).setEntry r v 0) := by
  obtain ⟨hV, hS, hidx⟩ := hs
  have hslot : (⟨false, 0, 0, .raid0⟩ : SwapSlot).used = false := rfl
  refine ⟨h.free, h.tree.setEntry _ _, h.trap, ?_, ?_, h.extra⟩
  · exact h.pages.releaseSlot he hV hS hidx hslot (getLsbD_zero_entry _) (fun _ => rfl)
      (fun hf => by simp at hf) (fun _ _ => rfl)
  · exact h.frames.of_invalid he (Or.inr hV) (Or.inr (getLsbD_zero_entry _))

section Unmap

variable {W : Watch Panic (Eviction D)}

/-- A turn of `uvmunmap` on a user page. -/
theorem uvmunmapTurn_spec (hW : W.allowed .kfree) (h : Ready c g k) (hr : (k.tables r).isSome)
    (hal : a % pgsize = 0) (hlt : a < trapframe) :
    Sat W (uvmunmapTurn r true a) (fun _ k' => (∃ g', Ready c g' k') ∧ Cleared r (· = vpn a) k k') k := by
  have hmax : a < maxva := lt_trans hlt (by decide)
  have hspecial := not_special_of_lt hal hlt
  obtain ⟨t, ht⟩ := Option.isSome_iff_exists.mp hr
  unfold uvmunmapTurn
  apply Sat.seq_run (walk_run hmax ht)
  cases he : k.tables.entry r (vpn a) with
  | none =>
    refine Sat.ret ⟨⟨g, h⟩, .refl ?_⟩
    rintro v rfl e hf
    rw [he] at hf
    cases hf
  | some e =>
    cases hV : e.getLsbD pteV with
    | true =>
      have hreg : k.Registered := fun i j => h.inv.frames.inj i j
      have ho := (h.inv.pages.resident he hspecial hV).1
      obtain ⟨hpal, hlo, hhi⟩ := h.inv.free.frame (pte2pa e) (by rw [ho]; simp)
      obtain ⟨hinv, hclear⟩ := h.inv.unmapResident he hspecial hV
      refine Sat.of_ok (uvmunmapPage_resident he hV hreg ⟨hpal, hlo, hhi⟩ h.lock)
        ⟨⟨_, hinv, ?_⟩, hclear⟩
      show (k.dropFrame (pte2pa e)).framelock = false
      rw [Kernel.dropFrame_framelock, h.lock]
    | false =>
      cases hS : e.getLsbD pteS with
      | true =>
        obtain ⟨s, hs, -⟩ := h.inv.pages.swapped he hV hS
        exact Sat.of_ok (uvmunmapPage_swapped he hV hS hs)
          ⟨⟨g, h.inv.unmapSwapped he ⟨hV, hS, hs⟩, h.lock⟩, .of_setEntry (fun _ => rfl) rfl rfl fun H =>
            (Draws.freeSlot ⟨vpn a, e, he, hV, hS⟩ s).trans
              (.setEntry he (fun b => by simp [Maps, hV]) (.inl (getLsbD_zero_entry _)))⟩
      | false =>
        have h0 := h.inv.pages.zero he hV hS
        subst h0
        exact Sat.of_error (uvmunmapPage_lazy he h.lock fun i j => h.inv.frames.inj i j) hW

/-- The loop of `uvmunmap` empties its pages. -/
theorem uvmunmapLoop_spec (hW : W.allowed .kfree) (n : Nat) : ∀ {k : Kernel D} {g : Ledger} {a : Nat},
    Ready c g k → (k.tables r).isSome → a % pgsize = 0 → a + n * pgsize ≤ trapframe →
    Sat W (uvmunmapLoop r true n a) (fun _ k' => (∃ g', Ready c g' k') ∧
      Cleared r (InRange a n) k k') k := by
  induction n with
  | zero =>
    intro k g a h _ _ _
    refine Sat.ret ⟨⟨g, h⟩, .refl ?_⟩
    intro v hv
    unfold InRange at hv
    omega
  | succ n ih =>
    intro k g a h hr hal hle
    have hlt : a < trapframe := by
      unfold pgsize at hle
      omega
    have hsplit := fun v => inRange_succ (n := n) (v := v) hal (lt_trans hlt (by decide))
    apply Sat.seq
    apply (uvmunmapTurn_spec hW h hr hal hlt).mono
    rintro _ k₁ ⟨⟨g₁, hready⟩, hclear⟩
    apply (ih hready ((hclear.tables r).trans hr) (by unfold pgsize at *; omega)
      (by unfold pgsize at *; omega)).mono
    rintro _ k₂ ⟨hready₂, hclear₂⟩
    exact ⟨hready₂, (hclear.trans hclear₂).congr fun v => (hsplit v).symm⟩

/-- **`uvmunmap` of user pages** keeps the bookkeeping right. -/
theorem uvmunmap_spec (hW : W.allowed .kfree) (h : Ready c g k) (hr : (k.tables r).isSome)
    (hal : a % pgsize = 0) (hle : a + n * pgsize ≤ trapframe) :
    Sat W (uvmunmap r a n true) (fun _ k' => (∃ g', Ready c g' k') ∧
      Cleared r (InRange a n) k k') k := by
  rw [uvmunmap_of_aligned hal]
  exact uvmunmapLoop_spec hW n h hr hal hle

/-- `uvmunmap` of the trampoline or the trapframe page. -/
theorem uvmunmap_special (h : Ready c g k) (hr : (k.tables r).isSome) (hal : a % pgsize = 0)
    (hmax : a < maxva) (hv : Special (vpn a)) :
    Sat W (uvmunmap r a 1 false) (fun _ k' => Ready c g k' ∧ Cleared r (· = vpn a) k k') k := by
  obtain ⟨t, ht⟩ := Option.isSome_iff_exists.mp hr
  rw [uvmunmap_of_aligned hal]
  unfold uvmunmapLoop uvmunmapLoop uvmunmapTurn
  apply Sat.seq
  apply Sat.seq_run (walk_run hmax ht)
  cases he : k.tables.entry r (vpn a) with
  | none =>
    refine Sat.ret (Sat.ret ⟨h, .refl ?_⟩)
    rintro v rfl e hf
    rw [he] at hf
    cases hf
  | some e =>
    have hS := h.inv.pages.special he hv
    unfold uvmunmapPage
    apply Sat.seq_run (deref_run he)
    rw [if_neg (by rw [hS]; simp), if_neg (by simp)]
    apply Sat.of_ok (assign_run _ _)
    exact Sat.ret ⟨⟨h.inv.unmapSpecial he hv, h.lock⟩, .of_setEntry (fun _ => rfl) rfl rfl fun H =>
      .setEntry he (fun b => ⟨fun hf => absurd hv hf.1, fun hf => absurd hv hf.1⟩) (.inl (getLsbD_zero_entry _))⟩

end Unmap

end Xv6
