import Xv6.Vm.FaultSpec

/-!
# `uvmunmap`

What `uvmunmap` with `do_free` does to a range of pages. A page without a leaf table is skipped, a page
that was swapped out gives up its slot, a resident page its frame. The fourth kind, an entry that is
neither valid nor swapped out, falls through to the code for resident pages and hands the null page to
`kfree`, which panics. The main result `uvmunmap_iff` says that this is the only way to fail.
-/

namespace Xv6

open Function Tables Kernel List

variable {D : Type} {k k' k₁ k₂ : Kernel D} {pt va a n pa : Nat} {v w : Vpn} {e : Pte}

open TraceM

/-- The pages `va`, `va + PGSIZE`, …, `n` of them. -/
def InRange (va n : Nat) (v : Vpn) : Prop := va ≤ v.addr ∧ v.addr < va + n * pgsize

instance : Decidable (InRange va n v) := inferInstanceAs (Decidable (_ ∧ _))

/-- The pages of a range are the first one and those of the rest. -/
theorem inRange_succ (hal : a % pgsize = 0) (hmax : a < maxva) :
    InRange a (n + 1) v ↔ v = vpn a ∨ InRange (a + pgsize) n v := by
  have hv := v.addr_aligned
  have haddr := addr_vpn hal hmax
  have heq : v = vpn a ↔ v.addr = a := by
    constructor
    · rintro rfl
      exact haddr
    · rintro rfl
      exact (vpn_addr v).symm
  rw [heq]
  unfold InRange pgsize at *
  omega

theorem not_inRange_next (hal : a % pgsize = 0) (hmax : a < maxva) :
    ¬ InRange (a + pgsize) n (vpn a) := by
  unfold InRange
  rw [addr_vpn hal hmax]
  unfold pgsize
  omega

/-! ## Giving up a frame -/

/-- Each frame is registered at most once. -/
def Kernel.Registered (k : Kernel D) : Prop :=
  ∀ i j, (k.frametable i).used = true → (k.frametable j).used = true →
    (k.frametable i).pa = (k.frametable j).pa → i = j

theorem Kernel.clearFrame_eq (i : Fin maxFrames) : ∃ P, k.clearFrame i =
    { k with
      frametable := update k.frametable i ⟨false, none, 0, 0⟩
      activeFrames := k.activeFrames - 1
      proc := P } ∧ ∀ p, (k.proc p).SameButStats (P p) := by
  unfold Kernel.clearFrame
  cases (k.frametable i).proc with
  | none => exact ⟨_, rfl, fun _ => rfl⟩
  | some p =>
    refine ⟨_, rfl, ?_⟩
    exact updProc_sameButStats (f := Proc.lessResident) (fun _ => by rfl) p

/-- `frametablefree` clears the entry of the frame, if there is one. -/
theorem Kernel.dropFrame_eq (h : k.Registered) (pa : Nat) : ∃ A P, k.dropFrame pa =
    { k with
      frametable := fun i => if (k.frametable i).used = true ∧ (k.frametable i).pa = pa
        then ⟨false, none, 0, 0⟩ else k.frametable i
      activeFrames := A
      proc := P } ∧ ∀ p, (k.proc p).SameButStats (P p) := by
  by_cases hex : ∃ i, (k.frametable i).used = true ∧ (k.frametable i).pa = pa
  · obtain ⟨i, hi, hpa⟩ := hex
    have honly : ∀ j, (k.frametable j).used = true → (k.frametable j).pa = pa → j = i :=
      fun j hj hjpa => h j i hj hi (hjpa.trans hpa.symm)
    obtain ⟨P, hclear, hP⟩ := clearFrame_eq (k := k) i
    refine ⟨k.activeFrames - 1, P, ?_, hP⟩
    rw [dropFrame_of_used hi hpa honly, hclear]
    congr 1
    funext j
    by_cases hji : j = i
    · subst hji
      rw [update_self, if_pos ⟨hi, hpa⟩]
    · rw [update_of_ne hji, if_neg]
      rintro ⟨hj, hjpa⟩
      exact hji (honly j hj hjpa)
  · refine ⟨k.activeFrames, k.proc, ?_, fun _ => rfl⟩
    have hnone : ∀ i, ¬ ((k.frametable i).used = true ∧ (k.frametable i).pa = pa) :=
      fun i hi => hex ⟨i, hi⟩
    rw [dropFrame_of_unused fun i hi hpa => hnone i ⟨hi, hpa⟩]
    simp only [hnone, if_false]

theorem Kernel.dropFrame_dropFrame (h : k.Registered) (pa : Nat) :
    (k.dropFrame pa).dropFrame pa = k.dropFrame pa := by
  obtain ⟨A, P, heq, -⟩ := dropFrame_eq h pa
  rw [heq]
  apply dropFrame_of_unused
  intro i hi
  dsimp only at hi ⊢
  split at hi
  · cases hi
  · next hne =>
      rw [if_neg hne]
      exact fun hpa => hne ⟨hi, hpa⟩

/-- The kernel after `frametablefree` and `kfree` of a frame. -/
def Kernel.freed (k : Kernel D) (pa : Nat) : Kernel D :=
  ((k.dropFrame pa).setMem pa (junk 1)).setFreelist (pa :: k.freelist)

theorem Kernel.freed_eq (h : k.Registered) (pa : Nat) : ∃ A P, k.freed pa =
    { k with
      frametable := fun i => if (k.frametable i).used = true ∧ (k.frametable i).pa = pa
        then ⟨false, none, 0, 0⟩ else k.frametable i
      activeFrames := A
      proc := P
      mem := update k.mem pa (junk 1)
      freelist := pa :: k.freelist } ∧ ∀ p, (k.proc p).SameButStats (P p) := by
  obtain ⟨A, P, heq, hP⟩ := dropFrame_eq h pa
  refine ⟨A, P, ?_, hP⟩
  unfold Kernel.freed
  rw [heq]
  rfl

/-! ## Ranges -/

/-- A frame that may be handed to `kfree`. -/
structure Freeable (k : Kernel D) (pa : Nat) : Prop where
  aligned : pa % pgsize = 0
  low : k.image.kend ≤ pa
  high : pa < phystop

/-- The leaf entry of a page that was swapped out to slot `s`. -/
def SwappedTo (e : Pte) (s : Fin maxSwap) : Prop :=
  e.getLsbD pteV = false ∧ e.getLsbD pteS = true ∧ swapIdx e = s

/-- **What `uvmunmap` may expect** of the pages in `P`: resident ones have frames of their own that are
allocated, swapped ones have used slots of their own, and all others are zero. -/
structure Unmappable (k : Kernel D) (pt : Nat) (P : Vpn → Prop) : Prop where
  table : (k.tables pt).isSome
  lock : k.framelock = false
  registered : k.Registered
  frame : ∀ {v e}, P v → k.tables.entry pt v = some e → e.getLsbD pteV = true →
    Freeable k (pte2pa e) ∧ pte2pa e ∉ k.freelist
  frame_inj : ∀ {v w e e'}, P v → P w → k.tables.entry pt v = some e →
    k.tables.entry pt w = some e' → e.getLsbD pteV = true → e'.getLsbD pteV = true →
    pte2pa e = pte2pa e' → v = w
  slot : ∀ {v e}, P v → k.tables.entry pt v = some e → e.getLsbD pteV = false →
    e.getLsbD pteS = true → ∃ s, SwappedTo e s ∧ (k.swaptable s).used = true
  slot_inj : ∀ {v w e e' s}, P v → P w → k.tables.entry pt v = some e →
    k.tables.entry pt w = some e' → SwappedTo e s → SwappedTo e' s → v = w
  zero : ∀ {v e}, P v → k.tables.entry pt v = some e → e.getLsbD pteV = false →
    e.getLsbD pteS = false → e = 0

theorem Unmappable.mono {P Q : Vpn → Prop} (h : Unmappable k pt Q) (hPQ : ∀ v, P v → Q v) :
    Unmappable k pt P :=
  ⟨h.table, h.lock, h.registered, fun hv => h.frame (hPQ _ hv),
    fun hv hw => h.frame_inj (hPQ _ hv) (hPQ _ hw), fun hv => h.slot (hPQ _ hv),
    fun hv hw => h.slot_inj (hPQ _ hv) (hPQ _ hw), fun hv => h.zero (hPQ _ hv)⟩

/-- **What `uvmunmap` should leave behind**: the entries in `P` are zero, their frames are on the free
list and in no frame-table entry, their slots are free, and all else is as before. -/
structure Unmapped (k : Kernel D) (pt : Nat) (P : Vpn → Prop) (freed : List Nat) (k' : Kernel D) :
    Prop where
  cleared : ∀ {v e}, P v → k'.tables.entry pt v = some e → e = 0
  others : ∀ r v, ¬ (r = pt ∧ P v) → k'.tables.entry r v = k.tables.entry r v
  shape : k.tables.SameShape k'.tables
  freelist : k'.freelist = freed ++ k.freelist
  nodup : freed.Nodup
  mem_freed : ∀ pa, pa ∈ freed ↔ ∃ v e, P v ∧ k.tables.entry pt v = some e ∧
    e.getLsbD pteV = true ∧ pte2pa e = pa
  mem : ∀ pa, pa ∉ freed → k'.mem pa = k.mem pa
  dropped : ∀ i, (k.frametable i).used = true → (k.frametable i).pa ∈ freed →
    (k'.frametable i).used = false
  frames : ∀ i, (k.frametable i).used = false ∨ (k.frametable i).pa ∉ freed →
    k'.frametable i = k.frametable i
  slotFree : ∀ {v e s}, P v → k.tables.entry pt v = some e → SwappedTo e s →
    (k'.swaptable s).used = false
  slots : ∀ s, (∀ v e, P v → k.tables.entry pt v = some e → ¬ SwappedTo e s) →
    k'.swaptable s = k.swaptable s
  image : k'.image = k.image
  lock : k'.framelock = k.framelock
  table : ∀ r, (k'.tables r).isSome = (k.tables r).isSome

theorem Tables.eq_zero_of_setEntry {T : Tables} (h : (T.setEntry pt v 0).entry pt v = some e) :
    e = 0 := by
  rw [entry_setEntry, if_pos ⟨rfl, rfl⟩, Option.map_eq_some_iff] at h
  obtain ⟨_, -, rfl⟩ := h
  rfl

namespace Unmapped

variable {P Q R : Vpn → Prop} {l l' : List Nat}

/-- Nothing to do. -/
theorem refl (h : ∀ v e, P v → k.tables.entry pt v ≠ some e) : Unmapped k pt P [] k where
  cleared hv he := absurd he (h _ _ hv)
  others _ _ _ := rfl
  shape := .refl
  freelist := rfl
  nodup := nodup_nil
  mem_freed pa := by
    constructor
    · intro hf
      cases hf
    · rintro ⟨v, e, hv, he, -⟩
      exact absurd he (h v e hv)
  mem _ _ := rfl
  dropped _ _ hf := absurd hf not_mem_nil
  frames _ _ := rfl
  slotFree hv he := absurd he (h _ _ hv)
  slots _ _ := rfl
  image := rfl
  lock := rfl
  table _ := rfl

/-- A resident page. -/
theorem resident (he : k.tables.entry pt v = some e) (hV : e.getLsbD pteV = true)
    (hreg : k.Registered) :
    Unmapped k pt (· = v) [pte2pa e] ((k.freed (pte2pa e)).setEntry pt v 0) := by
  obtain ⟨A, P, heq, -⟩ := freed_eq hreg (pte2pa e)
  rw [heq]
  refine ⟨?_, ?_, .setEntry .., rfl, nodup_singleton _, ?_, ?_, ?_, ?_, ?_, ?_, rfl, rfl, ?_⟩
  · rintro w e' rfl he'
    exact eq_zero_of_setEntry he'
  · intro r w hne
    rw [setEntry_tables, entry_setEntry, if_neg hne]
  · intro pa
    rw [mem_singleton]
    constructor
    · rintro rfl
      exact ⟨v, e, rfl, he, hV, rfl⟩
    · rintro ⟨w, e', rfl, he', -, rfl⟩
      rw [he] at he'
      cases he'
      rfl
  · intro pa hpa
    exact update_of_ne (mem_singleton.not.mp hpa) _ _
  · intro i hi hpa
    show (if _ then _ else _ : Frame).used = false
    rw [if_pos ⟨hi, mem_singleton.mp hpa⟩]
  · intro i hi
    show (if _ then _ else _ : Frame) = _
    rw [if_neg]
    rintro ⟨hused, hpa⟩
    rcases hi with hi | hi
    · rw [hused] at hi
      cases hi
    · exact hi (mem_singleton.mpr hpa)
  · rintro w e' s rfl he' hs
    rw [he] at he'
    cases he'
    rw [hs.1] at hV
    cases hV
  · intro s _
    rfl
  · intro r
    rw [setEntry_tables, isSome_setEntry]

/-- The entries still used are those that were, and they name other frames. -/
theorem of_used (h : Unmapped k pt P l k') {i : Fin maxFrames}
    (hi : (k'.frametable i).used = true) :
    k'.frametable i = k.frametable i ∧ (k'.frametable i).pa ∉ l := by
  by_cases hd : (k.frametable i).used = true ∧ (k.frametable i).pa ∈ l
  · rw [h.dropped i hd.1 hd.2] at hi
    cases hi
  · have hsame : k'.frametable i = k.frametable i := by
      apply h.frames
      rw [← Bool.not_eq_true, ← not_and_or]
      exact hd
    rw [hsame] at hi ⊢
    exact ⟨rfl, fun hpa => hd ⟨hi, hpa⟩⟩

/-- What `uvmunmap` may expect of the remaining pages. -/
theorem rest (h : Unmapped k pt P l k₁) (hk : Unmappable k pt R) (hR : ∀ v, R v ↔ P v ∨ Q v)
    (hPQ : ∀ v, Q v → ¬ P v) : Unmappable k₁ pt Q := by
  have hkeep : ∀ {v e}, Q v → k₁.tables.entry pt v = some e → R v ∧ k.tables.entry pt v = some e := by
    intro v e hv he
    rw [h.others pt v (fun hf => hPQ v hv hf.2)] at he
    exact ⟨(hR v).mpr (Or.inr hv), he⟩
  refine ⟨(h.table pt).trans hk.table, h.lock.trans hk.lock, ?_, ?_, ?_, ?_, ?_, ?_⟩
  · intro i j hi hj heq
    have hi' := (h.of_used hi).1
    have hj' := (h.of_used hj).1
    rw [hi'] at hi heq
    rw [hj'] at hj heq
    exact hk.registered i j hi hj heq
  · intro v e hv he hV
    obtain ⟨hRv, he⟩ := hkeep hv he
    obtain ⟨hpa, hfree⟩ := hk.frame hRv he hV
    refine ⟨⟨hpa.aligned, by rw [h.image]; exact hpa.low, hpa.high⟩, ?_⟩
    rw [h.freelist, mem_append, h.mem_freed]
    rintro (⟨w, e', hw, he', hV', heq⟩ | hf)
    · have hvw := hk.frame_inj hRv ((hR w).mpr (Or.inl hw)) he he' hV hV' heq.symm
      exact hPQ v hv (hvw ▸ hw)
    · exact hfree hf
  · intro v w e e' hv hw he he'
    obtain ⟨hRv, he⟩ := hkeep hv he
    obtain ⟨hRw, he'⟩ := hkeep hw he'
    exact hk.frame_inj hRv hRw he he'
  · intro v e hv he hV hS
    obtain ⟨hRv, he⟩ := hkeep hv he
    obtain ⟨s, hs, hused⟩ := hk.slot hRv he hV hS
    refine ⟨s, hs, ?_⟩
    rw [h.slots]
    · exact hused
    · intro w e' hw he' hs'
      have hvw := hk.slot_inj hRv ((hR w).mpr (Or.inl hw)) he he' hs hs'
      exact hPQ v hv (hvw ▸ hw)
  · intro v w e e' s hv hw he he'
    obtain ⟨hRv, he⟩ := hkeep hv he
    obtain ⟨hRw, he'⟩ := hkeep hw he'
    exact hk.slot_inj hRv hRw he he'
  · intro v e hv he
    obtain ⟨hRv, he⟩ := hkeep hv he
    exact hk.zero hRv he

/-- One part of the range after the other. -/
theorem trans (h : Unmapped k pt P l k₁) (h' : Unmapped k₁ pt Q l' k₂) (hk : Unmappable k pt R)
    (hR : ∀ v, R v ↔ P v ∨ Q v) (hPQ : ∀ v, Q v → ¬ P v) : Unmapped k pt R (l' ++ l) k₂ := by
  have hkeep : ∀ {v}, Q v → k₁.tables.entry pt v = k.tables.entry pt v :=
    fun {v} hv => h.others pt v fun hf => hPQ v hv hf.2
  refine ⟨?_, ?_, h.shape.trans h'.shape, ?_, ?_, ?_, ?_, ?_, ?_, ?_, ?_, h'.image.trans h.image,
    h'.lock.trans h.lock, fun r => (h'.table r).trans (h.table r)⟩
  · intro v e hv he
    by_cases hQ : Q v
    · exact h'.cleared hQ he
    · rw [h'.others pt v fun hf => hQ hf.2] at he
      exact h.cleared (((hR v).mp hv).resolve_right hQ) he
  · intro r v hne
    rw [h'.others r v fun hf => hne ⟨hf.1, (hR v).mpr (Or.inr hf.2)⟩,
      h.others r v fun hf => hne ⟨hf.1, (hR v).mpr (Or.inl hf.2)⟩]
  · rw [h'.freelist, h.freelist, append_assoc]
  · refine nodup_append'.mpr ⟨h'.nodup, h.nodup, ?_⟩
    intro pa hpa' hpa
    obtain ⟨v, e, hv, he, hV, rfl⟩ := (h'.mem_freed _).mp hpa'
    obtain ⟨w, e', hw, he', hV', heq⟩ := (h.mem_freed _).mp hpa
    rw [hkeep hv] at he
    have hvw := hk.frame_inj ((hR v).mpr (Or.inr hv)) ((hR w).mpr (Or.inl hw)) he he' hV hV' heq.symm
    exact hPQ v hv (hvw ▸ hw)
  · intro pa
    rw [mem_append, h'.mem_freed, h.mem_freed]
    constructor
    · rintro (⟨v, e, hv, he, hrest⟩ | ⟨v, e, hv, hrest⟩)
      · rw [hkeep hv] at he
        exact ⟨v, e, (hR v).mpr (Or.inr hv), he, hrest⟩
      · exact ⟨v, e, (hR v).mpr (Or.inl hv), hrest⟩
    · rintro ⟨v, e, hv, he, hrest⟩
      rcases (hR v).mp hv with hv | hv
      · exact Or.inr ⟨v, e, hv, he, hrest⟩
      · rw [← hkeep hv] at he
        exact Or.inl ⟨v, e, hv, he, hrest⟩
  · intro pa hpa
    rw [mem_append, not_or] at hpa
    rw [h'.mem pa hpa.1, h.mem pa hpa.2]
  · intro i hi hpa
    by_cases hi₁ : (k₁.frametable i).used = true
    · obtain ⟨hsame, hne⟩ := h.of_used hi₁
      apply h'.dropped i hi₁
      rw [← hsame, mem_append] at hpa
      exact hpa.resolve_right hne
    · rw [Bool.not_eq_true] at hi₁
      rw [h'.frames i (Or.inl hi₁), hi₁]
  · intro i hi
    have hsame : k₁.frametable i = k.frametable i := by
      apply h.frames
      rcases hi with hi | hi
      · exact Or.inl hi
      · exact Or.inr fun hf => hi (mem_append_right _ hf)
    rw [h'.frames i, hsame]
    rw [hsame]
    rcases hi with hi | hi
    · exact Or.inl hi
    · exact Or.inr fun hf => hi (mem_append_left _ hf)
  · intro v e s hv he hs
    by_cases hQ : Q v
    · exact h'.slotFree hQ ((hkeep hQ).trans he) hs
    · have hP := ((hR v).mp hv).resolve_right hQ
      rw [h'.slots]
      · exact h.slotFree hP he hs
      · intro w e' hw he' hs'
        rw [hkeep hw] at he'
        have hvw := hk.slot_inj hv ((hR w).mpr (Or.inr hw)) he he' hs hs'
        exact hQ (hvw ▸ hw)
  · intro s hs
    rw [h'.slots, h.slots]
    · intro v e hv
      exact hs v e ((hR v).mpr (Or.inl hv))
    · intro v e hv he
      rw [hkeep hv] at he
      exact hs v e ((hR v).mpr (Or.inr hv)) he

end Unmapped

/-- The kinds of pages `uvmunmap` copes with. -/
def Tables.Coped (T : Tables) (pt : Nat) (v : Vpn) : Prop :=
  ∀ e, T.entry pt v = some e → e.getLsbD pteV = true ∨ e.getLsbD pteS = true

/-- A later turn sees the pages as they were. -/
theorem Unmapped.coped {P : Vpn → Prop} {l : List Nat} (h : Unmapped k pt P l k') (hv : ¬ P v) :
    k'.tables.Coped pt v ↔ k.tables.Coped pt v := by
  unfold Tables.Coped
  rw [h.others pt v fun hf => hv hf.2]

/-! ## One page -/

variable [SwapStore D]

/-- A page in swap gives its slot back. -/
theorem uvmunmapPage_swapped {b : Bool} {s : Fin maxSwap} (he : k.tables.entry pt v = some e)
    (hV : e.getLsbD pteV = false) (hS : e.getLsbD pteS = true) (hs : swapIdx e = s) :
    uvmunmapPage ⟨pt, v⟩ b k = .ok ((), (k.freeSlot s).setEntry pt v 0, []) := by
  unfold uvmunmapPage
  rw [bind_of_ok (deref_run he), if_pos ⟨hV, hS⟩, bind_of_ok (swapFree_run hs)]
  rfl

/-- A page in memory is freed. -/
theorem uvmunmapPage_resident (he : k.tables.entry pt v = some e) (hV : e.getLsbD pteV = true)
    (hreg : k.Registered) (hpa : Freeable k (pte2pa e)) (hlock : k.framelock = false) :
    uvmunmapPage ⟨pt, v⟩ true k = .ok ((), (k.freed (pte2pa e)).setEntry pt v 0, []) := by
  have hnot : ¬ (e.getLsbD pteV = false ∧ e.getLsbD pteS = true) := by
    rw [hV]
    simp
  obtain ⟨A, P, heq, -⟩ := dropFrame_eq hreg (pte2pa e)
  have himage : (k.dropFrame (pte2pa e)).image = k.image := by rw [heq]
  have hfree : (k.dropFrame (pte2pa e)).freelist = k.freelist := by rw [heq]
  have hlock' : (k.dropFrame (pte2pa e)).framelock = false := by
    rw [dropFrame_framelock, hlock]
  have hkfree := kfree_run (k := k.dropFrame (pte2pa e)) hpa.aligned (by rw [himage]; exact hpa.low)
    hpa.high hlock'
  rw [dropFrame_dropFrame hreg, hfree] at hkfree
  unfold uvmunmapPage
  rw [bind_of_ok (deref_run he), if_neg hnot, if_pos rfl]
  dsimp only
  rw [bind_of_ok (frametablefree_run _ hlock), bind_of_ok hkfree]
  rfl

/-- **The fall-through**: a page that was never allocated, in an existing leaf table. -/
theorem uvmunmapPage_lazy (he : k.tables.entry pt v = some 0) (hlock : k.framelock = false)
    (hreg : k.Registered) : uvmunmapPage ⟨pt, v⟩ true k = .error .kfree := by
  obtain ⟨A, P, heq, -⟩ := dropFrame_eq hreg (pte2pa 0)
  have himage : (k.dropFrame (pte2pa 0)).image = k.image := by rw [heq]
  have hpos : 0 < k.image.kend := lt_of_lt_of_le (by decide) k.image.kernbase_le
  unfold uvmunmapPage
  rw [bind_of_ok (deref_run he), if_neg (by simp), if_pos rfl]
  dsimp only
  rw [bind_of_ok (frametablefree_run _ hlock)]
  apply bind_of_error
  apply kfree_panic
  rw [himage, pte2pa_zero]
  exact hpos

/-- A page that was swapped out. -/
theorem Unmapped.swapped {s : Fin maxSwap} (he : k.tables.entry pt v = some e) (hs : SwappedTo e s) :
    Unmapped k pt (· = v) [] ((k.freeSlot s).setEntry pt v 0) where
  cleared := by
    rintro w e' rfl he'
    exact eq_zero_of_setEntry he'
  others r w hne := by
    rw [setEntry_tables, entry_setEntry, if_neg hne]
    rfl
  shape := .setEntry ..
  freelist := rfl
  nodup := nodup_nil
  mem_freed pa := by
    constructor
    · intro hf
      cases hf
    · rintro ⟨w, e', rfl, he', hV, -⟩
      rw [he] at he'
      cases he'
      rw [hs.1] at hV
      cases hV
  mem _ _ := rfl
  dropped _ _ hf := absurd hf not_mem_nil
  frames _ _ := rfl
  slotFree := by
    rintro w e' s' rfl he' hs'
    rw [he] at he'
    cases he'
    have hss : s' = s := Fin.ext (by exact_mod_cast hs'.2.2.symm.trans hs.2.2)
    subst hss
    show (update k.swaptable s' _ s').used = false
    rw [update_self]
  slots s' hne := by
    have hss : s' ≠ s := by
      rintro rfl
      exact hne v e rfl he hs
    exact update_of_ne hss _ _
  image := rfl
  lock := rfl
  table r := by
    rw [setEntry_tables, isSome_setEntry]
    rfl

/-! ## The loop -/

/-- The turn of the loop at page `a`. -/
theorem uvmunmapTurn_run (hmax : a < maxva) (hk : Unmappable k pt (· = vpn a))
    (hcope : k.tables.Coped pt (vpn a)) :
    ∃ l k₁, Unmapped k pt (· = vpn a) l k₁ ∧ uvmunmapTurn pt true a k = .ok ((), k₁, []) := by
  obtain ⟨t, ht⟩ := Option.isSome_iff_exists.mp hk.table
  unfold uvmunmapTurn
  rw [bind_of_ok (walk_run hmax ht)]
  cases he : k.tables.entry pt (vpn a) with
  | none =>
    refine ⟨[], k, .refl ?_, rfl⟩
    rintro v e rfl hf
    rw [he] at hf
    cases hf
  | some e =>
    cases hV : e.getLsbD pteV with
    | true =>
      obtain ⟨hpa, -⟩ := hk.frame rfl he hV
      exact ⟨_, _, .resident he hV hk.registered,
        uvmunmapPage_resident he hV hk.registered hpa hk.lock⟩
    | false =>
      have hS := (hcope e he).resolve_left (by rw [hV]; simp)
      obtain ⟨s, hs, -⟩ := hk.slot rfl he hV hS
      exact ⟨_, _, .swapped he hs, uvmunmapPage_swapped he hs.1 hs.2.1 hs.2.2⟩

/-- An entry that is zero is a panic of `kfree`. -/
theorem uvmunmapTurn_panic (hmax : a < maxva) (hk : Unmappable k pt (· = vpn a))
    (hbad : ¬ k.tables.Coped pt (vpn a)) : uvmunmapTurn pt true a k = .error .kfree := by
  obtain ⟨t, ht⟩ := Option.isSome_iff_exists.mp hk.table
  unfold Tables.Coped at hbad
  simp only [not_forall, not_or, Bool.not_eq_true] at hbad
  obtain ⟨e, he, hV, hS⟩ := hbad
  have h0 := hk.zero rfl he hV hS
  subst h0
  unfold uvmunmapTurn
  rw [bind_of_ok (walk_run hmax ht), he]
  exact uvmunmapPage_lazy he hk.lock hk.registered

section Loop

variable (hal : a % pgsize = 0) (hmax : a + n * pgsize ≤ maxva) (hk : Unmappable k pt (InRange a n))

include hal hmax hk

/-- The loop copes with a range if and only if it copes with each page. -/
theorem uvmunmapLoop_run :
    ((∀ v, InRange a n v → k.tables.Coped pt v) →
      ∃ l k', Unmapped k pt (InRange a n) l k' ∧ uvmunmapLoop pt true n a k = .ok ((), k', [])) ∧
    ((∃ v, InRange a n v ∧ ¬ k.tables.Coped pt v) →
      uvmunmapLoop pt true n a k = .error .kfree) := by
  induction n generalizing a k with
  | zero =>
    have hnone : ∀ v, ¬ InRange a 0 v := by
      intro v hv
      unfold InRange at hv
      omega
    exact ⟨fun _ => ⟨[], k, .refl fun v e hv => absurd hv (hnone v), rfl⟩,
      fun ⟨v, hv, _⟩ => absurd hv (hnone v)⟩
  | succ n ih =>
    have hlt : a < maxva := by
      unfold pgsize at hmax
      omega
    have hsplit := fun v => inRange_succ (n := n) (v := v) hal hlt
    have hnext : ∀ v, InRange (a + pgsize) n v → ¬ v = vpn a := by
      rintro v hv rfl
      exact not_inRange_next hal hlt hv
    have hone : Unmappable k pt (· = vpn a) := hk.mono fun v hv => (hsplit v).mpr (Or.inl hv)
    unfold uvmunmapLoop
    by_cases hcope : k.tables.Coped pt (vpn a)
    · obtain ⟨l₁, k₁, hturn, hrun⟩ := uvmunmapTurn_run hlt hone hcope
      obtain ⟨hok, hpanic⟩ := ih (by unfold pgsize at *; omega) (by unfold pgsize at *; omega)
        (hturn.rest hk hsplit hnext)
      rw [bind_of_ok hrun]
      constructor
      · intro hall
        obtain ⟨l₂, k₂, hrest, hrun₂⟩ := hok fun v hv =>
          (hturn.coped (hnext v hv)).mpr (hall v ((hsplit v).mpr (Or.inr hv)))
        exact ⟨l₂ ++ l₁, k₂, hturn.trans hrest hk hsplit hnext, hrun₂⟩
      · rintro ⟨v, hv, hbad⟩
        rcases (hsplit v).mp hv with rfl | hv
        · exact absurd hcope hbad
        · exact hpanic ⟨v, hv, fun h => hbad ((hturn.coped (hnext v hv)).mp h)⟩
    · rw [bind_of_error (uvmunmapTurn_panic hlt hone hcope)]
      exact ⟨fun hall => absurd (hall _ ((hsplit _).mpr (Or.inl rfl))) hcope, fun _ => rfl⟩

end Loop

theorem uvmunmap_of_aligned {b : Bool} (hal : va % pgsize = 0) :
    (uvmunmap pt va n b : KM D Unit) = uvmunmapLoop pt b n va := by
  unfold uvmunmap
  rw [if_neg (not_not.mpr hal)]

/-- **`uvmunmap` copes with a range exactly when no page in it was left unallocated inside an existing
leaf table.** -/
theorem uvmunmap_iff (hal : va % pgsize = 0) (hmax : va + n * pgsize ≤ maxva)
    (hk : Unmappable k pt (InRange va n)) :
    (∃ l k', uvmunmap pt va n true k = .ok ((), k', []) ∧ Unmapped k pt (InRange va n) l k') ↔
      ∀ v, InRange va n v → k.tables.Coped pt v := by
  obtain ⟨hok, hpanic⟩ := uvmunmapLoop_run hal hmax hk
  rw [uvmunmap_of_aligned hal]
  constructor
  · rintro ⟨l, k', hrun, -⟩
    by_contra hall
    simp only [not_forall] at hall
    obtain ⟨v, hv, hbad⟩ := hall
    rw [hpanic ⟨v, hv, hbad⟩] at hrun
    cases hrun
  · intro hall
    obtain ⟨l, k', hun, hrun⟩ := hok hall
    exact ⟨l, k', hrun, hun⟩

end Xv6
