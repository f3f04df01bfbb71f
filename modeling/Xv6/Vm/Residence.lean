import Xv6.Vm.Ledger

/-!
# Where a user page is

Two more parts of the kernel state and their check against the ledger. `PagesOk`: a leaf entry is
zero, or it maps a frame that belongs to this very page, or it names a swap slot that names this very
page back. `FramesOk`: the used entries of the frame table name mapped pages, one entry a page.

A frame-table entry names a process, not a page table. The parameter `extra` is the table a call in
progress builds for a process beside its current one, if there is such a table: an entry of that
process may mean either of the two. The parameter `stale` is the table of a process that is being
freed, if there is one: its trapframe page is gone before the entry that maps it.
-/

namespace Xv6

open Function Tables Finset

theorem Vpn.addr_injective {v w : Vpn} (h : v.addr = w.addr) : v = w := by
  rw [← vpn_addr v, ← vpn_addr w, h]

@[simp] theorem getLsbD_zero_entry (n : Nat) : (0 : Pte).getLsbD n = false := BitVec.getLsbD_zero

structure PagesOk (stale : Option Nat) (own : Nat → Owner) (T : Tables)
    (slots : Fin maxSwap → SwapSlot) : Prop where
  special : ∀ {r v e}, T.entry r v = some e → Special v → e.getLsbD pteS = false
  fixed : ∀ {r v e}, T.entry r v = some e → Special v → e.getLsbD pteV = true → some r ≠ stale →
    (own (pte2pa e)).isFixed = true
  zero : ∀ {r v e}, T.entry r v = some e → e.getLsbD pteV = false → e.getLsbD pteS = false → e = 0
  resident : ∀ {r v e}, T.entry r v = some e → ¬ Special v → e.getLsbD pteV = true →
    own (pte2pa e) = .page r v ∧ e.getLsbD pteS = false
  swapped : ∀ {r v e}, T.entry r v = some e → e.getLsbD pteV = false → e.getLsbD pteS = true →
    ∃ s : Fin maxSwap, swapIdx e = s ∧ (slots s).used = true ∧ (slots s).pageTable = r ∧
      (slots s).va = v.addr
  slot : ∀ s, (slots s).used = true → ∃ v e, (slots s).va = v.addr ∧
    T.entry (slots s).pageTable v = some e ∧ e.getLsbD pteV = false ∧ e.getLsbD pteS = true ∧
      swapIdx e = s

namespace PagesOk

variable {stale stale' : Option Nat} {own own' : Nat → Owner} {T T' : Tables}
  {slots slots' : Fin maxSwap → SwapSlot} {r pa : Nat} {v : Vpn} {e e' : Pte}

/-- Two pages never share a frame. -/
theorem frame_injective (h : PagesOk stale own T slots) {r' : Nat} {w : Vpn}
    (he : T.entry r v = some e) (hv : ¬ Special v) (hval : e.getLsbD pteV = true)
    (he' : T.entry r' w = some e') (hw : ¬ Special w) (hval' : e'.getLsbD pteV = true)
    (heq : pte2pa e' = pte2pa e) : r' = r ∧ w = v := by
  have h₁ := (h.resident he hv hval).1
  have h₂ := (h.resident he' hw hval').1
  rw [heq, h₁] at h₂
  cases h₂
  exact ⟨rfl, rfl⟩

/-- **One entry changes.** The new entry has to be right at its place, and the pages and slots of
all other entries have to stay theirs. -/
theorem setEntry (h : PagesOk stale own T slots) (he : T.entry r v = some e)
    (hspecial : Special v → e'.getLsbD pteS = false)
    (hfixed : Special v → e'.getLsbD pteV = true → some r ≠ stale →
      (own' (pte2pa e')).isFixed = true)
    (hzero : e'.getLsbD pteV = false → e'.getLsbD pteS = false → e' = 0)
    (hres : ¬ Special v → e'.getLsbD pteV = true →
      own' (pte2pa e') = .page r v ∧ e'.getLsbD pteS = false)
    (hswap : e'.getLsbD pteV = false → e'.getLsbD pteS = true → ∃ s : Fin maxSwap,
      swapIdx e' = s ∧ (slots' s).used = true ∧ (slots' s).pageTable = r ∧ (slots' s).va = v.addr)
    (hown : ∀ a, own a ≠ .page r v → own a ≠ .held → own' a = own a)
    (hkeep : ∀ s, (slots s).used = true → ¬ ((slots s).pageTable = r ∧ (slots s).va = v.addr) →
      slots' s = slots s)
    (hback : ∀ s, (slots' s).used = true →
      (slots' s = slots s ∧ ¬ ((slots s).pageTable = r ∧ (slots s).va = v.addr)) ∨
      ((slots' s).pageTable = r ∧ (slots' s).va = v.addr ∧ e'.getLsbD pteV = false ∧
        e'.getLsbD pteS = true ∧ swapIdx e' = s)) :
    PagesOk stale own' (T.setEntry r v e') slots' := by
  have hcases : ∀ {r' w e₀}, (T.setEntry r v e').entry r' w = some e₀ →
      (r' = r ∧ w = v ∧ e₀ = e') ∨ (¬ (r' = r ∧ w = v) ∧ T.entry r' w = some e₀) := by
    intro r' w e₀ h₀
    rw [entry_setEntry] at h₀
    split at h₀
    · next heq =>
        rw [he] at h₀
        cases h₀
        exact Or.inl ⟨heq.1, heq.2, rfl⟩
    · next hne => exact Or.inr ⟨hne, h₀⟩
  refine ⟨?_, ?_, ?_, ?_, ?_, ?_⟩
  · intro r' w e₀ h₀ hw
    rcases hcases h₀ with ⟨rfl, rfl, rfl⟩ | ⟨-, h₀⟩
    · exact hspecial hw
    · exact h.special h₀ hw
  · intro r' w e₀ h₀ hw hV hst
    rcases hcases h₀ with ⟨rfl, rfl, rfl⟩ | ⟨-, h₀⟩
    · exact hfixed hw hV hst
    · have hfix := h.fixed h₀ hw hV hst
      rw [hown _ (by intro heq; rw [heq] at hfix; cases hfix)
        (by intro heq; rw [heq] at hfix; cases hfix)]
      exact hfix
  · intro r' w e₀ h₀ hV hS
    rcases hcases h₀ with ⟨rfl, rfl, rfl⟩ | ⟨-, h₀⟩
    · exact hzero hV hS
    · exact h.zero h₀ hV hS
  · intro r' w e₀ h₀ hw hV
    rcases hcases h₀ with ⟨rfl, rfl, rfl⟩ | ⟨hne, h₀⟩
    · exact hres hw hV
    · obtain ⟨ho, hS⟩ := h.resident h₀ hw hV
      have hkept := hown (pte2pa e₀) (by rw [ho]; rintro ⟨⟩; exact hne ⟨rfl, rfl⟩)
        (by rw [ho]; simp)
      exact ⟨hkept.trans ho, hS⟩
  · intro r' w e₀ h₀ hV hS
    rcases hcases h₀ with ⟨rfl, rfl, rfl⟩ | ⟨hne, h₀⟩
    · exact hswap hV hS
    · obtain ⟨s, hs, hused, hr, hva⟩ := h.swapped h₀ hV hS
      have hkept := hkeep s hused (by
        rintro ⟨h₁, h₂⟩
        exact hne ⟨hr.symm.trans h₁, Vpn.addr_injective (hva.symm.trans h₂)⟩)
      exact ⟨s, hs, by rw [hkept]; exact hused, by rw [hkept]; exact hr, by rw [hkept]; exact hva⟩
  · intro s hs
    rcases hback s hs with ⟨hkept, hne⟩ | ⟨hr, hva, hV, hS, hidx⟩
    · rw [hkept] at hs ⊢
      obtain ⟨w, e₀, hw, h₀, hrest⟩ := h.slot s hs
      refine ⟨w, e₀, hw, ?_, hrest⟩
      rw [entry_setEntry, if_neg]
      · exact h₀
      · rintro ⟨h₁, rfl⟩
        exact hne ⟨h₁, hw⟩
    · refine ⟨v, e', hva, ?_, hV, hS, hidx⟩
      rw [hr, entry_setEntry, if_pos ⟨rfl, rfl⟩, he]
      rfl

/-- A slot never belongs to a page with a valid entry. -/
theorem slot_ne (h : PagesOk stale own T slots) (he : T.entry r v = some e)
    (hno : e.getLsbD pteV = true ∨ e.getLsbD pteS = false) (s : Fin maxSwap)
    (hs : (slots s).used = true) : ¬ ((slots s).pageTable = r ∧ (slots s).va = v.addr) := by
  rintro ⟨hr, hva⟩
  obtain ⟨w, e₀, hw, h₀, hV, hS, -⟩ := h.slot s hs
  have hwv : w = v := Vpn.addr_injective (hw.symm.trans hva)
  rw [hr, hwv, he] at h₀
  cases h₀
  rcases hno with hno | hno
  · rw [hno] at hV
    cases hV
  · rw [hno] at hS
    cases hS

/-- The slots of a page without a slot: all others keep theirs. -/
theorem slots_kept (h : PagesOk stale own T slots) (he : T.entry r v = some e)
    (hno : e.getLsbD pteV = true ∨ e.getLsbD pteS = false) (s : Fin maxSwap)
    (hs : (slots s).used = true) :
    (slots s = slots s ∧ ¬ ((slots s).pageTable = r ∧ (slots s).va = v.addr)) ∨
      ((slots s).pageTable = r ∧ (slots s).va = v.addr ∧ e'.getLsbD pteV = false ∧
        e'.getLsbD pteS = true ∧ swapIdx e' = s) :=
  Or.inl ⟨rfl, h.slot_ne he hno s hs⟩

/-- Flags other than those of residence may change. -/
theorem retouch (h : PagesOk stale own T slots) (he : T.entry r v = some e)
    (hV : e.getLsbD pteV = true) (hV' : e'.getLsbD pteV = true)
    (hS : e'.getLsbD pteS = e.getLsbD pteS)
    (hup : upper e' = upper e) : PagesOk stale own (T.setEntry r v e') slots := by
  have hne : e ≠ 0 := by
    rintro rfl
    simp at hV
  refine h.setEntry he ?_ ?_ ?_ ?_ ?_ (fun _ _ _ => rfl) (fun _ _ _ => rfl)
    (h.slots_kept he (Or.inl hV))
  · intro hv
    rw [hS]
    exact h.special he hv
  · intro hv _ hst
    rw [pte2pa_congr hup]
    exact h.fixed he hv hV hst
  · intro hf
    rw [hV'] at hf
    cases hf
  · intro hv _
    rw [pte2pa_congr hup, hS]
    exact h.resident he hv hV
  · intro hf
    rw [hV'] at hf
    cases hf

/-- Eviction: the entry names a fresh slot, the frame goes to the new owner. -/
theorem evict (h : PagesOk stale own T slots) (he : T.entry r v = some e) (hv : ¬ Special v)
    (hV : e.getLsbD pteV = true) {s : Fin maxSwap} (hs : (slots s).used = false)
    {slot : SwapSlot} (hslot : slot.used = true ∧ slot.pageTable = r ∧ slot.va = v.addr)
    {o : Owner} :
    PagesOk stale (update own (pte2pa e) o) (T.setEntry r v (swapEntry s e))
      (update slots s slot) := by
  obtain ⟨ho, hSe⟩ := h.resident he hv hV
  have hne : e ≠ 0 := by
    rintro rfl
    simp at hV
  refine h.setEntry he (fun hv' => absurd hv' hv) (fun hv' => absurd hv' hv) ?_ ?_ ?_
    ?_ ?_ ?_
  · intro _ hS
    rw [swapEntry_swapped] at hS
    cases hS
  · intro _ hf
    rw [swapEntry_not_valid] at hf
    cases hf
  · intro _ _
    refine ⟨s, swapIdx_swapEntry e s.isLt, ?_⟩
    rw [update_self]
    exact hslot
  · intro a ha _
    exact own_update_of_ne rfl (by rw [ho]; exact ha.symm)
  · intro s' hs' _
    have : s' ≠ s := by
      rintro rfl
      rw [hs] at hs'
      cases hs'
    exact update_of_ne this ..
  · intro s' hs'
    by_cases heq : s' = s
    · subst heq
      right
      rw [update_self]
      exact ⟨hslot.2.1, hslot.2.2, swapEntry_not_valid _ _, swapEntry_swapped _ _,
        swapIdx_swapEntry e s'.isLt⟩
    · rw [update_of_ne heq] at hs' ⊢
      exact Or.inl ⟨rfl, h.slot_ne he (Or.inl hV) s' hs'⟩

/-- An empty entry comes to map a frame that no page owns. -/
theorem map (h : PagesOk stale own T slots) (he : T.entry r v = some 0) (hv : ¬ Special v)
    (hV : e'.getLsbD pteV = true) (hS : e'.getLsbD pteS = false)
    (hpa : own (pte2pa e') = .held) :
    PagesOk stale (update own (pte2pa e') (.page r v)) (T.setEntry r v e') slots := by
  have hno : (0 : Pte).getLsbD pteS = false := getLsbD_zero_entry _
  refine h.setEntry he (fun hv' => absurd hv' hv) (fun hv' => absurd hv' hv) ?_ ?_ ?_ ?_
    (fun _ _ _ => rfl) (h.slots_kept he (Or.inr hno))
  · intro hf
    rw [hV] at hf
    cases hf
  · intro _ _
    exact ⟨update_self .., hS⟩
  · intro hf
    rw [hV] at hf
    cases hf
  · intro a _ ha
    exact own_update_of_ne rfl (by rw [hpa]; exact ha.symm)

/-- The slot a swapped page names is the only one that names the page. -/
theorem only_slot (h : PagesOk stale own T slots) (he : T.entry r v = some e)
    (hV : e.getLsbD pteV = false) (hS : e.getLsbD pteS = true) {s : Fin maxSwap}
    (hs : swapIdx e = s) :
    (slots s).pageTable = r ∧ (slots s).va = v.addr ∧
      ∀ t, (slots t).used = true → (slots t).pageTable = r ∧ (slots t).va = v.addr → t = s := by
  obtain ⟨s', hs', -, hr, hva⟩ := h.swapped he hV hS
  have hss : s' = s := Fin.ext (by exact_mod_cast hs'.symm.trans hs)
  subst hss
  refine ⟨hr, hva, ?_⟩
  rintro t ht ⟨h₁, h₂⟩
  obtain ⟨w, e₀, hw, h₀, -, -, hidx⟩ := h.slot t ht
  have hwv : w = v := Vpn.addr_injective (hw.symm.trans h₂)
  rw [h₁, hwv, he] at h₀
  cases h₀
  exact Fin.ext (by exact_mod_cast hidx.symm.trans hs')

/-- A swapped page gets a new entry and its slot is given up. -/
theorem releaseSlot (h : PagesOk stale own T slots) (he : T.entry r v = some e)
    (hnV : e.getLsbD pteV = false) (hnS : e.getLsbD pteS = true) {s : Fin maxSwap}
    (hs : swapIdx e = s) {slot : SwapSlot} (hslot : slot.used = false)
    (hS : e'.getLsbD pteS = false)
    (hzero : e'.getLsbD pteV = false → e' = 0)
    (hres : e'.getLsbD pteV = true → own' (pte2pa e') = .page r v)
    (hown : ∀ a, own a ≠ .held → own' a = own a) :
    PagesOk stale own' (T.setEntry r v e') (update slots s slot) := by
  obtain ⟨hr, hva, honly⟩ := h.only_slot he hnV hnS hs
  have hne : e ≠ 0 := by
    rintro rfl
    simp at hnS
  have hv : ¬ Special v := by
    intro hv
    rw [h.special he hv] at hnS
    cases hnS
  refine h.setEntry he (fun _ => hS) (fun hv' => absurd hv' hv) (fun hV _ => hzero hV)
    ?_ ?_ (fun a _ ha => hown a ha) ?_ ?_
  · intro _ hV
    exact ⟨hres hV, hS⟩
  · intro _ hf
    rw [hS] at hf
    cases hf
  · intro t ht hne'
    have : t ≠ s := by
      rintro rfl
      exact hne' ⟨hr, hva⟩
    exact update_of_ne this ..
  · intro t ht
    by_cases heq : t = s
    · subst heq
      rw [update_self, hslot] at ht
      cases ht
    · rw [update_of_ne heq] at ht ⊢
      exact Or.inl ⟨rfl, fun hpage => heq (honly t ht hpage)⟩

/-- A resident page is unmapped and its frame goes to the new owner. -/
theorem unmap (h : PagesOk stale own T slots) (he : T.entry r v = some e) (hv : ¬ Special v)
    (hV : e.getLsbD pteV = true) {o : Owner} :
    PagesOk stale (update own (pte2pa e) o) (T.setEntry r v 0) slots := by
  have ho := (h.resident he hv hV).1
  refine h.setEntry he (fun _ => getLsbD_zero_entry _) (fun hv' => absurd hv' hv) (fun _ _ => rfl)
    ?_ ?_ ?_ (fun _ _ _ => rfl) (h.slots_kept he (Or.inl hV))
  · intro _ hf
    simp at hf
  · intro _ hf
    simp at hf
  · intro a ha _
    exact own_update_of_ne rfl (by rw [ho]; exact ha.symm)

/-- The trampoline or trapframe entry is set or cleared. -/
theorem setSpecial (h : PagesOk stale own T slots) (he : T.entry r v = some e) (hv : Special v)
    (hS : e'.getLsbD pteS = false) (hzero : e'.getLsbD pteV = false → e' = 0)
    (hfix : e'.getLsbD pteV = true → (own (pte2pa e')).isFixed = true) :
    PagesOk stale own (T.setEntry r v e') slots := by
  refine h.setEntry he (fun _ => hS) (fun _ hV _ => hfix hV) (fun hV _ => hzero hV)
    (fun hv' => absurd hv hv') ?_ (fun _ _ _ => rfl) (fun _ _ _ => rfl)
    (h.slots_kept he (Or.inr (h.special he hv)))
  intro _ hf
  rw [hS] at hf
  cases hf

/-- Zero entries may come and go: nothing depends on them. -/
theorem congr (h : PagesOk stale own T slots)
    (hT : ∀ r v e, e ≠ 0 → (T'.entry r v = some e ↔ T.entry r v = some e)) :
    PagesOk stale own T' slots := by
  have hnz : ∀ {e : Pte} {n : Nat}, e.getLsbD n = true → e ≠ 0 := by
    rintro e n hn rfl
    simp at hn
  refine ⟨?_, ?_, ?_, ?_, ?_, ?_⟩
  · intro r v e he hv
    by_cases h0 : e = 0
    · rw [h0]
      exact getLsbD_zero_entry _
    · exact h.special ((hT r v e h0).mp he) hv
  · intro r v e he hv hV
    exact h.fixed ((hT r v e (hnz hV)).mp he) hv hV
  · intro r v e he hV hS
    by_cases h0 : e = 0
    · exact h0
    · exact h.zero ((hT r v e h0).mp he) hV hS
  · intro r v e he hv hV
    exact h.resident ((hT r v e (hnz hV)).mp he) hv hV
  · intro r v e he hV hS
    exact h.swapped ((hT r v e (hnz hS)).mp he) hV hS
  · intro s hs
    obtain ⟨v, e, hva, he, hV, hS, hidx⟩ := h.slot s hs
    exact ⟨v, e, hva, (hT _ v e (hnz hS)).mpr he, hV, hS, hidx⟩

/-- Pages that neither a user page nor a special entry holds may change hands. -/
theorem reown (h : PagesOk stale own T slots) {o : Owner} (hpa : ∀ r v, own pa ≠ .page r v)
    (hfix : (own pa).isFixed = false) : PagesOk stale (update own pa o) T slots := by
  refine ⟨h.special, ?_, h.zero, ?_, h.swapped, h.slot⟩
  · intro r v e he hv hV hst
    have hfe := h.fixed he hv hV hst
    rw [own_update_of_ne rfl (by intro heq; rw [heq, hfe] at hfix; cases hfix)]
    exact hfe
  · intro r v e he hv hV
    obtain ⟨ho, hrest⟩ := h.resident he hv hV
    exact ⟨own_update_of_ne ho (hpa r v), hrest⟩

/-- A trapframe page changes hands: the tables that still map it become stale. -/
theorem dropTrapframe (h : PagesOk stale own T slots) {o : Owner} {p : ProcId}
    (hpa : own pa = .trapframe p)
    (hmap : ∀ r v e, T.entry r v = some e → Special v → e.getLsbD pteV = true → pte2pa e = pa →
      some r = stale') (hst : ∀ r, some r = stale → some r = stale') :
    PagesOk stale' (update own pa o) T slots := by
  refine ⟨h.special, ?_, h.zero, ?_, h.swapped, h.slot⟩
  · intro r v e he hv hV hne
    have hfe := h.fixed he hv hV (fun heq => hne (hst r heq))
    have hpae : pte2pa e ≠ pa := fun heq => hne (hmap r v e he hv hV heq)
    rw [update_of_ne hpae]
    exact hfe
  · intro r v e he hv hV
    obtain ⟨ho, hrest⟩ := h.resident he hv hV
    exact ⟨own_update_of_ne ho (by rw [hpa]; simp), hrest⟩

end PagesOk

/-! ## The frame table -/

structure FramesOk (extra : Option (ProcId × Nat)) (T : Tables) (pt : ProcId → Nat)
    (ft : Fin maxFrames → Frame) (active : Int) : Prop where
  used : ∀ i, (ft i).used = true → ∃ p r e, (ft i).proc = some p ∧ (r = pt p ∨ extra = some (p, r)) ∧
    (ft i).va % pgsize = 0 ∧ (ft i).va < trapframe ∧ T.entry r (vpn (ft i).va) = some e ∧
      e.getLsbD pteV = true ∧ pte2pa e = (ft i).pa
  inj : ∀ i j, (ft i).used = true → (ft j).used = true → (ft i).pa = (ft j).pa → i = j
  unused : ∀ i, (ft i).used = false → (ft i).proc = none
  active : active = ((univ.filter fun i => (ft i).used = true).card : Int)
  covered : ∀ {r v e}, T.entry r v = some e → ¬ Special v → e.getLsbD pteV = true →
    ∃ i, (ft i).used = true ∧ (ft i).pa = pte2pa e

theorem card_used_of_clear {ft ft' : Fin maxFrames → Frame} {i : Fin maxFrames}
    (hi : (ft i).used = true) (hi' : (ft' i).used = false) (hne : ∀ j, j ≠ i → ft' j = ft j) :
    ((univ.filter fun j => (ft' j).used = true).card : Int) =
      ((univ.filter fun j => (ft j).used = true).card : Int) - 1 := by
  have herase : (univ.filter fun j => (ft' j).used = true) =
      (univ.filter fun j => (ft j).used = true).erase i := by
    ext j
    simp only [mem_filter, mem_univ, true_and, mem_erase]
    by_cases hj : j = i
    · subst hj
      simp [hi']
    · simp [hj, hne j hj]
  have hmem : i ∈ univ.filter fun j => (ft j).used = true := by simp [hi]
  have hpos := card_pos.mpr ⟨i, hmem⟩
  rw [herase, card_erase_of_mem hmem]
  omega

theorem card_used_of_set {ft ft' : Fin maxFrames → Frame} {i : Fin maxFrames}
    (hi : (ft i).used = false) (hi' : (ft' i).used = true) (hne : ∀ j, j ≠ i → ft' j = ft j) :
    ((univ.filter fun j => (ft' j).used = true).card : Int) =
      ((univ.filter fun j => (ft j).used = true).card : Int) + 1 := by
  have := card_used_of_clear hi' hi (fun j hj => (hne j hj).symm)
  omega

namespace FramesOk

variable {extra extra' : Option (ProcId × Nat)} {T T' : Tables} {pt pt' : ProcId → Nat}
  {ft ft' : Fin maxFrames → Frame} {active : Int} {r pa : Nat} {v : Vpn} {e e' : Pte}

/-- A mapped page is unmapped and its frame-table entry given up. -/
theorem unmap (h : FramesOk extra T pt ft active) {i : Fin maxFrames} (he : T.entry r v = some e)
    (hi : (ft i).used = true) (hpa : (ft i).pa = pte2pa e)
    (honly : ∀ r' w e₀, T.entry r' w = some e₀ → ¬ Special w → e₀.getLsbD pteV = true →
      pte2pa e₀ = pte2pa e → r' = r ∧ w = v)
    (hV' : e'.getLsbD pteV = false) (hi' : (ft' i).used = false ∧ (ft' i).proc = none)
    (hne : ∀ j, j ≠ i → ft' j = ft j) :
    FramesOk extra (T.setEntry r v e') pt ft' (active - 1) := by
  have hkeep : ∀ j, (ft' j).used = true → j ≠ i ∧ ft' j = ft j := by
    intro j hj
    have hji : j ≠ i := by
      rintro rfl
      rw [hi'.1] at hj
      cases hj
    exact ⟨hji, hne j hji⟩
  refine ⟨?_, ?_, ?_, ?_, ?_⟩
  · intro j hj
    obtain ⟨hji, hjeq⟩ := hkeep j hj
    rw [hjeq] at hj ⊢
    obtain ⟨p, r', e₀, hp, hr, hal, hlt, h₀, hV, hpa'⟩ := h.used j hj
    refine ⟨p, r', e₀, hp, hr, hal, hlt, ?_, hV, hpa'⟩
    rw [entry_setEntry, if_neg]
    · exact h₀
    · rintro ⟨rfl, hv⟩
      rw [hv, he] at h₀
      cases h₀
      exact hji (h.inj j i hj hi (by rw [← hpa', hpa]))
  · intro j₁ j₂ h₁ h₂ heq
    obtain ⟨-, h₁'⟩ := hkeep j₁ h₁
    obtain ⟨-, h₂'⟩ := hkeep j₂ h₂
    rw [h₁'] at h₁ heq
    rw [h₂'] at h₂ heq
    exact h.inj j₁ j₂ h₁ h₂ heq
  · intro j hj
    by_cases hji : j = i
    · rw [hji]
      exact hi'.2
    · rw [hne j hji] at hj ⊢
      exact h.unused j hj
  · rw [card_used_of_clear hi hi'.1 hne, h.active]
  · intro r' w e₀ h₀ hw hV
    rw [entry_setEntry] at h₀
    split at h₀
    · rw [he] at h₀
      cases h₀
      rw [hV'] at hV
      cases hV
    · next hne' =>
        obtain ⟨j, hj, hjpa⟩ := h.covered h₀ hw hV
        have hji : j ≠ i := by
          rintro rfl
          exact hne' (honly r' w e₀ h₀ hw hV (by rw [← hjpa, hpa]))
        rw [← hne j hji] at hj hjpa
        exact ⟨j, hj, hjpa⟩

/-- An unmapped page is mapped and registered in a free entry. -/
theorem map (h : FramesOk extra T pt ft active) {i : Fin maxFrames} {p : ProcId} {va : Nat}
    (he : T.entry r (vpn va) = some e) (hV : e.getLsbD pteV = false)
    (hV' : e'.getLsbD pteV = true) (hr : r = pt p ∨ extra = some (p, r)) (hal : va % pgsize = 0)
    (hlt : va < trapframe) (hi : (ft i).used = false)
    (hfresh : ∀ r' w e₀, T.entry r' w = some e₀ → ¬ Special w → e₀.getLsbD pteV = true →
      pte2pa e₀ ≠ pte2pa e') :
    FramesOk extra (T.setEntry r (vpn va) e') pt
      (update ft i ⟨true, some p, va, pte2pa e'⟩) (active + 1) := by
  have hself : (T.setEntry r (vpn va) e').entry r (vpn va) = some e' := by
    rw [entry_setEntry, if_pos ⟨rfl, rfl⟩, he]
    rfl
  have hother : ∀ j, (ft j).used = true → (ft j).pa ≠ pte2pa e' := by
    intro j hj hpa
    obtain ⟨q, r', e₀, -, -, hal', hlt', h₀, hV₀, hpa₀⟩ := h.used j hj
    exact hfresh r' _ e₀ h₀ (not_special_of_lt hal' hlt') hV₀ (hpa₀.trans hpa)
  refine ⟨?_, ?_, ?_, ?_, ?_⟩
  · intro j hj
    by_cases hji : j = i
    · subst hji
      simp only [update_self]
      exact ⟨p, r, e', rfl, hr, hal, hlt, hself, hV', rfl⟩
    · rw [update_of_ne hji] at hj ⊢
      obtain ⟨q, r', e₀, hq, hr', hal', hlt', h₀, hV₀, hpa₀⟩ := h.used j hj
      refine ⟨q, r', e₀, hq, hr', hal', hlt', ?_, hV₀, hpa₀⟩
      rw [entry_setEntry, if_neg]
      · exact h₀
      · rintro ⟨rfl, hv⟩
        rw [hv, he] at h₀
        cases h₀
        rw [hV] at hV₀
        cases hV₀
  · intro j₁ j₂ h₁ h₂ heq
    by_cases hj₁ : j₁ = i
    · by_cases hj₂ : j₂ = i
      · rw [hj₁, hj₂]
      · subst hj₁
        rw [update_of_ne hj₂] at h₂ heq
        rw [update_self] at heq
        exact absurd heq.symm (hother j₂ h₂)
    · by_cases hj₂ : j₂ = i
      · subst hj₂
        rw [update_of_ne hj₁] at h₁ heq
        rw [update_self] at heq
        exact absurd heq (hother j₁ h₁)
      · rw [update_of_ne hj₁] at h₁ heq
        rw [update_of_ne hj₂] at h₂ heq
        exact h.inj j₁ j₂ h₁ h₂ heq
  · intro j hj
    by_cases hji : j = i
    · subst hji
      rw [update_self] at hj
      cases hj
    · rw [update_of_ne hji] at hj ⊢
      exact h.unused j hj
  · rw [card_used_of_set hi (i := i) (by rw [update_self])
      (fun j hj => update_of_ne hj _ _), h.active]
  · intro r' w e₀ h₀ hw hV₀
    rw [entry_setEntry] at h₀
    split at h₀
    · rw [he] at h₀
      cases h₀
      exact ⟨i, by rw [update_self], by rw [update_self]⟩
    · obtain ⟨j, hj, hjpa⟩ := h.covered h₀ hw hV₀
      have hji : j ≠ i := by
        rintro rfl
        rw [hi] at hj
        cases hj
      exact ⟨j, by rw [update_of_ne hji]; exact hj,
        by rw [update_of_ne hji]; exact hjpa⟩

/-- Only the valid entries of user pages matter, and of these only the frames. -/
theorem congr (h : FramesOk extra T pt ft active)
    (hT : ∀ r v e, T.entry r v = some e → ¬ Special v → e.getLsbD pteV = true →
      ∃ e', T'.entry r v = some e' ∧ e'.getLsbD pteV = true ∧ pte2pa e' = pte2pa e)
    (hT' : ∀ r v e', T'.entry r v = some e' → ¬ Special v → e'.getLsbD pteV = true →
      ∃ e, T.entry r v = some e ∧ e.getLsbD pteV = true ∧ pte2pa e = pte2pa e') :
    FramesOk extra T' pt ft active := by
  refine ⟨?_, h.inj, h.unused, h.active, ?_⟩
  · intro i hi
    obtain ⟨p, r, e, hp, hr, hal, hlt, he, hV, hpa⟩ := h.used i hi
    obtain ⟨e', he', hV', hpa'⟩ := hT r _ e he (not_special_of_lt hal hlt) hV
    exact ⟨p, r, e', hp, hr, hal, hlt, he', hV', hpa'.trans hpa⟩
  · intro r v e' he' hv hV'
    obtain ⟨e, he, hV, hpa⟩ := hT' r v e' he' hv hV'
    obtain ⟨i, hi, hipa⟩ := h.covered he hv hV
    exact ⟨i, hi, hipa.trans hpa⟩

/-- Which table a process has now may change for processes the frame table does not name. -/
theorem setRoots (h : FramesOk extra T pt ft active)
    (hpt : ∀ p r, (r = pt p ∨ extra = some (p, r)) → (T r).isSome → r = pt' p ∨ extra' = some (p, r)) :
    FramesOk extra' T pt' ft active := by
  refine ⟨?_, h.inj, h.unused, h.active, h.covered⟩
  intro i hi
  obtain ⟨p, r, e, hp, hr, hal, hlt, he, hV, hpa⟩ := h.used i hi
  have hsome : (T r).isSome := by
    unfold entry at he
    cases hT : T r with
    | none => simp [hT] at he
    | some t => rfl
  exact ⟨p, r, e, hp, hpt p r hr hsome, hal, hlt, he, hV, hpa⟩

end FramesOk

end Xv6
