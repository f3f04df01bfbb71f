import Xv6.Vm.FrameCount
import Xv6.Vm.Unmap

/-!
# What a page table draws from the free list

A call that builds or takes down one page table moves pages between the free list, its own hands and the
table. `Draws r H H' k k'` says that this is all that happened: the pool of pages of the free list, the
pages `H` in hand and the pages of the table `r` is the same before and after, and whatever is outside the
pool is untouched, apart from reference bits. The relation is transitive, so it carries over from the
single steps to whole calls; when the table is gone again, the free list is back to what it was.

Evictions take pages from other tables, so all this is about calls without evictions
(`Watch.eventless`).
-/

namespace Xv6

open TraceM Function Tables

variable {D : Type} {k k' k'' k₁ : Kernel D} {r a pa : Nat} {H H' H'' : List Nat} {v : Vpn} {e e' : Pte}

/-! ## Pages of a table -/

/-- The page `a` is a page of the table `r`: it holds a part of the table or is mapped as user memory. -/
inductive Tables.PageOf (T : Tables) (r a : Nat) : Prop
  | root (h : a = r) (hr : (T r).isSome)
  | mid (i₂ : Fin 512) (h : T.midPage r i₂ = some a)
  | leaf (i₂ i₁ : Fin 512) (h : T.leafPage r i₂ i₁ = some a)
  | user (v : Vpn) (e : Pte) (hv : ¬ Special v) (he : T.entry r v = some e) (hV : e.getLsbD pteV = true)
      (ha : pte2pa e = a)

/-- A page of the table `r` is in swap. -/
def Tables.InSwap (T : Tables) (r : Nat) : Prop :=
  ∃ v e, T.entry r v = some e ∧ e.getLsbD pteV = false ∧ e.getLsbD pteS = true

theorem ne_zero_of_getLsbD {e : Pte} {n : Nat} (h : e.getLsbD n = true) : e ≠ 0 := by
  rintro rfl
  simp at h

theorem pte2pa_of_withoutA (h : withoutA e' = withoutA e) : pte2pa e' = pte2pa e := by
  apply pte2pa_congr
  rw [← upper_and_not_bit e' (show pteA < 10 by decide), ← upper_and_not_bit e (show pteA < 10 by decide)]
  exact congrArg upper h

theorem Tables.not_pageOf {T : Tables} (h : T r = none) : ¬ T.PageOf r a := by
  rintro (⟨rfl, hr⟩ | ⟨i₂, hm⟩ | ⟨i₂, i₁, hl⟩ | ⟨v, e, _, he, _, _⟩)
  · rw [h] at hr
    cases hr
  · simp [midPage, h] at hm
  · simp [leafPage, h] at hl
  · simp [entry, h] at he

/-- Who owns the pages of a table. -/
theorem Inv.own_of_pageOf {c : Ctx} {g : Ledger} (h : Inv c g k) (ha : k.tables.PageOf r a) :
    g a = .root r ∨ (∃ i₂, g a = .mid r i₂) ∨ (∃ i₂ i₁, g a = .leaf r i₂ i₁) ∨ ∃ v, g a = .page r v := by
  cases ha with
  | root h' hr =>
    rw [h']
    exact .inl (h.tree.root r hr)
  | mid i₂ hm => exact .inr (.inl ⟨i₂, h.tree.mid r i₂ a hm⟩)
  | leaf i₂ i₁ hl => exact .inr (.inr (.inl ⟨i₂, i₁, h.tree.leaf r i₂ i₁ a hl⟩))
  | user v e hv he hV ha =>
    rw [← ha]
    exact .inr (.inr (.inr ⟨v, (h.pages.resident he hv hV).1⟩))

/-- The pages that the table `r` can draw on, with the pages `H` in hand. -/
def Kernel.Pool (k : Kernel D) (r : Nat) (H : List Nat) (a : Nat) : Prop :=
  a ∈ k.freelist ∨ a ∈ H ∨ k.tables.PageOf r a

/-- How far `resident_pages` is from the number of frames of the process. -/
def Kernel.drift (k : Kernel D) (p : ProcId) : Int32 :=
  (k.proc p).residentPages - Int32.ofNat (k.framesOf p)

theorem Kernel.drift_of_update {i : Fin maxFrames} {f : Frame} {p : ProcId}
    (hft : k'.frametable = update k.frametable i f)
    (hres : (k'.proc p).residentPages + (if (k.frametable i).OwnedBy p then 1 else 0) =
      (k.proc p).residentPages + if f.OwnedBy p then 1 else 0) : k'.drift p = k.drift p := by
  have hcard := Counting.card_filter_update (Frame.OwnedBy p) k.frametable i f
  have hk' : k'.framesOf p =
      (Finset.univ.filter fun j => Frame.OwnedBy p (update k.frametable i f j)).card := by
    unfold Kernel.framesOf
    rw [hft]
  have hk : (Finset.univ.filter fun j => Frame.OwnedBy p (k.frametable j)).card = k.framesOf p := rfl
  rw [← hk', hk] at hcard
  unfold Kernel.drift
  split_ifs at hcard hres with h₁ h₂ h₂
  · have : k'.framesOf p = k.framesOf p := by omega
    grind
  · rw [show k.framesOf p = k'.framesOf p + 1 by omega, Int32.ofNat_add]
    grind
  · rw [show k'.framesOf p = k.framesOf p + 1 by omega, Int32.ofNat_add]
    grind
  · have : k'.framesOf p = k.framesOf p := by omega
    grind

/-! ## Drawing -/

structure Draws (r : Nat) (H H' : List Nat) (k k' : Kernel D) : Prop where
  pool : ∀ a, k'.Pool r H' a ↔ k.Pool r H a
  mem : ∀ a, ¬ k.Pool r H a → k'.mem a = k.mem a
  others : ∀ r' v, r' ≠ r → (k'.tables.entry r' v).map withoutA = (k.tables.entry r' v).map withoutA
  frames : ∀ i, k'.frametable i = k.frametable i ∨
    (((k.frametable i).used = true → k.Pool r H (k.frametable i).pa) ∧
      (k'.frametable i = ⟨false, none, 0, 0⟩ ∨
        ((k'.frametable i).used = true ∧ k'.Pool r H' (k'.frametable i).pa)))
  procs : ∀ p, k'.proc p = { k.proc p with residentPages := (k'.proc p).residentPages }
  drift : ∀ p, k'.drift p = k.drift p
  swap : ¬ k.tables.InSwap r → ¬ k'.tables.InSwap r ∧ k'.swaptable = k.swaptable ∧ k'.disk = k.disk

namespace Draws

theorem refl : Draws r H H k k :=
  ⟨fun _ => Iff.rfl, fun _ _ => rfl, fun _ _ _ => rfl, fun _ => .inl rfl, fun _ => rfl, fun _ => rfl,
    fun h => ⟨h, rfl, rfl⟩⟩

theorem trans (h : Draws r H H' k k') (h' : Draws r H' H'' k' k'') : Draws r H H'' k k'' := by
  refine ⟨fun a => (h'.pool a).trans (h.pool a), ?_, ?_, ?_, ?_, fun p => (h'.drift p).trans (h.drift p), ?_⟩
  · intro a ha
    rw [h'.mem a fun hf => ha ((h.pool a).mp hf), h.mem a ha]
  · intro r' v hr'
    rw [h'.others r' v hr', h.others r' v hr']
  · intro i
    rcases h'.frames i with h₂ | ⟨h₂, h₂'⟩
    · rw [h₂]
      rcases h.frames i with h₁ | ⟨h₁, h₁' | ⟨hu, hp⟩⟩
      · exact .inl h₁
      · exact .inr ⟨h₁, .inl h₁'⟩
      · exact .inr ⟨h₁, .inr ⟨hu, (h'.pool _).mpr hp⟩⟩
    · refine .inr ⟨?_, h₂'⟩
      rcases h.frames i with h₁ | ⟨h₁, -⟩
      · rw [← h₁]
        exact fun hu => (h.pool _).mp (h₂ hu)
      · exact h₁
  · intro p
    rw [h'.procs p]
    conv_lhs => rw [h.procs p]
  · intro hs
    obtain ⟨hs', hslots, hdisk⟩ := h.swap hs
    obtain ⟨hs'', hslots', hdisk'⟩ := h'.swap hs'
    exact ⟨hs'', hslots'.trans hslots, hdisk'.trans hdisk⟩

/-- A page of the pool is written. -/
theorem setMem (h : k.Pool r H a) (page : Page) : Draws r H H k (k.setMem a page) := by
  refine ⟨fun _ => Iff.rfl, ?_, fun _ _ _ => rfl, fun _ => .inl rfl, fun _ => rfl, fun _ => rfl,
    fun hs => ⟨hs, rfl, rfl⟩⟩
  intro b hb
  refine update_of_ne ?_ _ _
  rintro rfl
  exact hb h

/-- A page goes back to the free list. -/
theorem push : Draws r (a :: H) H k (k.setFreelist (a :: k.freelist)) := by
  refine ⟨?_, fun _ _ => rfl, fun _ _ _ => rfl, fun _ => .inl rfl, fun _ => rfl, fun _ => rfl,
    fun hs => ⟨hs, rfl, rfl⟩⟩
  intro b
  unfold Kernel.Pool
  show b ∈ a :: k.freelist ∨ b ∈ H ∨ _ ↔ _
  simp only [List.mem_cons]
  tauto

/-- The table itself changes. -/
theorem retable {T : Tables} (hpool : ∀ a, a ∈ H' ∨ T.PageOf r a ↔ a ∈ H ∨ k.tables.PageOf r a)
    (hothers : ∀ r' v, r' ≠ r → T.entry r' v = k.tables.entry r' v)
    (hswap : ¬ k.tables.InSwap r → ¬ T.InSwap r) : Draws r H H' k (k.setTables T) := by
  refine ⟨fun a => or_congr Iff.rfl (hpool a), fun _ _ => rfl, ?_, fun _ => .inl rfl, fun _ => rfl,
    fun _ => rfl, fun hs => ⟨hswap hs, rfl, rfl⟩⟩
  intro r' v hr'
  rw [Kernel.setTables_tables, hothers r' v hr']

/-- A page of the pool is struck from the frame table. -/
theorem dropFrame (h : k.Pool r H a) : Draws r H H k (k.dropFrame a) := by
  unfold Kernel.dropFrame
  split
  · exact .refl
  · next i hi =>
      have hfirst := firstIdx_holds hi
      simp only [Bool.and_eq_true, beq_iff_eq] at hfirst
      obtain ⟨hpa, hused⟩ := hfirst
      have hft : (k.clearFrame i).frametable = update k.frametable i ⟨false, none, 0, 0⟩ := by
        unfold Kernel.clearFrame
        split <;> rfl
      have hproc : ∀ q, (k.clearFrame i).proc q =
          if (k.frametable i).proc = some q then (k.proc q).lessResident else k.proc q := by
        intro q
        unfold Kernel.clearFrame
        cases hp : (k.frametable i).proc with
        | none => rfl
        | some p =>
          show update k.proc p (k.proc p).lessResident q = _
          rw [update_apply]
          by_cases hq : q = p
          · rw [if_pos hq, if_pos (by rw [hq]), hq]
          · rw [if_neg hq, if_neg fun heq => hq (Option.some.inj heq).symm]
      have hsame : (k.clearFrame i).freelist = k.freelist ∧ (k.clearFrame i).tables = k.tables ∧
          (k.clearFrame i).mem = k.mem ∧ (k.clearFrame i).swaptable = k.swaptable ∧
          (k.clearFrame i).disk = k.disk := by
        unfold Kernel.clearFrame
        split <;> exact ⟨rfl, rfl, rfl, rfl, rfl⟩
      obtain ⟨hfree, htab, hmem, hslots, hdisk⟩ := hsame
      refine ⟨?_, ?_, ?_, ?_, ?_, ?_, ?_⟩
      · intro b
        unfold Kernel.Pool
        rw [hfree, htab]
      · intro b _
        rw [hmem]
      · intro r' v _
        rw [htab]
      · intro j
        rw [hft]
        by_cases hj : j = i
        · subst hj
          rw [update_self]
          exact .inr ⟨fun _ => by rw [hpa]; exact h, .inl rfl⟩
        · exact .inl (update_of_ne hj _ _)
      · intro q
        rw [hproc]
        split <;> rfl
      · intro q
        have hempty : ¬ Frame.OwnedBy q ⟨false, none, 0, 0⟩ := fun ho => by cases ho.1
        refine Kernel.drift_of_update hft ?_
        rw [hproc, if_neg hempty]
        by_cases hq : (k.frametable i).proc = some q
        · rw [if_pos hq, if_pos ⟨hused, hq⟩]
          show (k.proc q).residentPages - 1 + 1 = (k.proc q).residentPages + 0
          grind
        · rw [if_neg hq, if_neg fun ho => hq ho.2]
      · intro hs
        rw [htab]
        exact ⟨hs, hslots, hdisk⟩

/-- A page in hand is freed. -/
theorem freed : Draws r (a :: H) H k (((k.dropFrame a).setMem a (junk 1)).setFreelist
    (a :: (k.dropFrame a).freelist)) := by
  have hin : ∀ k : Kernel D, k.Pool r (a :: H) a := fun _ => .inr (.inl List.mem_cons_self)
  have hdrop : Draws r (a :: H) (a :: H) k (k.dropFrame a) := dropFrame (hin k)
  exact (hdrop.trans (setMem (hin _) (junk 1))).trans push

/-- One page of the table less. -/
theorem shrink {T : Tables} (hpage : ∀ a, k.tables.PageOf r a ↔ T.PageOf r a ∨ a = pa)
    (hothers : ∀ r' v, r' ≠ r → T.entry r' v = k.tables.entry r' v)
    (hswap : ¬ k.tables.InSwap r → ¬ T.InSwap r) : Draws r H (pa :: H) k (k.setTables T) := by
  refine .retable (fun a => ?_) hothers hswap
  rw [hpage, List.mem_cons]
  tauto

end Draws

/-! ## One entry -/

/-- The pages of the table `r` apart from its user page `v`. -/
def Tables.PageBut (T : Tables) (r : Nat) (v : Vpn) (a : Nat) : Prop :=
  (a = r ∧ (T r).isSome) ∨ (∃ i₂, T.midPage r i₂ = some a) ∨ (∃ i₂ i₁, T.leafPage r i₂ i₁ = some a) ∨
    ∃ w e, w ≠ v ∧ ¬ Special w ∧ T.entry r w = some e ∧ e.getLsbD pteV = true ∧ pte2pa e = a

/-- The entry maps the page `a` as user memory. -/
def Maps (v : Vpn) (e : Pte) (a : Nat) : Prop := ¬ Special v ∧ e.getLsbD pteV = true ∧ pte2pa e = a

section Entry

variable {T : Tables}

theorem Tables.pageOf_iff (he : T.entry r v = some e) : T.PageOf r a ↔ T.PageBut r v a ∨ Maps v e a := by
  constructor
  · rintro (⟨h, hr⟩ | ⟨i₂, hm⟩ | ⟨i₂, i₁, hl⟩ | ⟨w, e₁, hw, he₁, hV, ha⟩)
    · exact .inl (.inl ⟨h, hr⟩)
    · exact .inl (.inr (.inl ⟨i₂, hm⟩))
    · exact .inl (.inr (.inr (.inl ⟨i₂, i₁, hl⟩)))
    · by_cases hwv : w = v
      · subst hwv
        rw [he] at he₁
        cases he₁
        exact .inr ⟨hw, hV, ha⟩
      · exact .inl (.inr (.inr (.inr ⟨w, e₁, hwv, hw, he₁, hV, ha⟩)))
  · rintro ((⟨h, hr⟩ | ⟨i₂, hm⟩ | ⟨i₂, i₁, hl⟩ | ⟨w, e₁, -, hw, he₁, hV, ha⟩) | ⟨hv, hV, ha⟩)
    · exact .root h hr
    · exact .mid i₂ hm
    · exact .leaf i₂ i₁ hl
    · exact .user w e₁ hw he₁ hV ha
    · exact .user v e hv he hV ha

/-- The pages of the table after one entry is written. -/
theorem Tables.pageOf_setEntry (he : T.entry r v = some e) :
    (T.setEntry r v e').PageOf r a ↔ T.PageBut r v a ∨ Maps v e' a := by
  have hnew : (T.setEntry r v e').entry r v = some e' := by
    rw [entry_setEntry, if_pos ⟨rfl, rfl⟩, he]
    rfl
  have hother : ∀ w, w ≠ v → (T.setEntry r v e').entry r w = T.entry r w := by
    intro w hw
    rw [entry_setEntry, if_neg fun hf => hw hf.2]
  rw [pageOf_iff hnew]
  refine or_congr ?_ Iff.rfl
  unfold Tables.PageBut
  simp only [isSome_setEntry, midPage_setEntry, leafPage_setEntry]
  refine or_congr Iff.rfl (or_congr Iff.rfl (or_congr Iff.rfl (exists_congr fun w => exists_congr fun e₁ => ?_)))
  constructor
  · rintro ⟨hw, hs, he₁, hrest⟩
    exact ⟨hw, hs, (hother w hw).symm.trans he₁, hrest⟩
  · rintro ⟨hw, hs, he₁, hrest⟩
    exact ⟨hw, hs, (hother w hw).trans he₁, hrest⟩

theorem Tables.InSwap.of_setEntry (h : (T.setEntry r v e').InSwap r)
    (hS : e'.getLsbD pteS = false ∨ e'.getLsbD pteV = true) : T.InSwap r := by
  obtain ⟨w, e₁, he₁, hV₁, hS₁⟩ := h
  rw [entry_setEntry] at he₁
  split at he₁
  · obtain ⟨-, -, rfl⟩ := Option.map_eq_some_iff.mp he₁
    rcases hS with hS | hS
    · rw [hS] at hS₁
      cases hS₁
    · rw [hS] at hV₁
      cases hV₁
  · exact ⟨w, e₁, he₁, hV₁, hS₁⟩

theorem Tables.entry_setEntry_other {r' : Nat} (w : Vpn) (hr : r' ≠ r) :
    (T.setEntry r v e').entry r' w = T.entry r' w := by
  rw [entry_setEntry, if_neg fun hf => hr hf.1]

/-- An entry of the table changes to one that maps no other page. -/
theorem Draws.setEntry (he : k.tables.entry r v = some e) (hpage : ∀ a, Maps v e' a ↔ Maps v e a)
    (hS : e'.getLsbD pteS = false ∨ e'.getLsbD pteV = true) : Draws r H H k (k.setEntry r v e') := by
  refine .retable (fun a => ?_) (fun r' w => entry_setEntry_other w) fun hs hf => hs (hf.of_setEntry hS)
  rw [pageOf_setEntry he, pageOf_iff he, hpage]

/-- A user page is taken out of the table. -/
theorem Draws.unmap (he : k.tables.entry r v = some e) (hv : ¬ Special v) (hV : e.getLsbD pteV = true) :
    Draws r H (pte2pa e :: H) k (k.setEntry r v 0) := by
  refine .shrink (fun a => ?_) (fun r' w => entry_setEntry_other w)
    fun hs hf => hs (hf.of_setEntry (.inl (getLsbD_zero_entry _)))
  have h0 : ¬ Maps v 0 a := fun hf => by simpa using hf.2.1
  have hmaps : Maps v e a ↔ a = pte2pa e := ⟨fun hf => hf.2.2.symm, fun ha => ⟨hv, hV, ha.symm⟩⟩
  rw [pageOf_setEntry he, pageOf_iff he, hmaps]
  tauto

end Entry

/-! ## Freeing a page of the table -/

theorem Kernel.dropFrame_same (a : Nat) : (k.dropFrame a).freelist = k.freelist ∧
    (k.dropFrame a).tables = k.tables ∧ (k.dropFrame a).image = k.image := by
  unfold Kernel.dropFrame Kernel.clearFrame
  split
  · exact ⟨rfl, rfl, rfl⟩
  · dsimp only
    split <;> exact ⟨rfl, rfl, rfl⟩

theorem Kernel.dropFrame_setTables (T : Tables) (a : Nat) :
    (k.setTables T).dropFrame a = (k.dropFrame a).setTables T := by
  unfold Kernel.dropFrame
  rw [show (k.setTables T).frametable = k.frametable from rfl]
  split
  · rfl
  · unfold Kernel.clearFrame
    rw [show (k.setTables T).frametable = k.frametable from rfl]
    split <;> rfl

/-- A page is taken out of the table and freed. -/
theorem Draws.release {T : Tables} (hpage : ∀ b, k.tables.PageOf r b ↔ T.PageOf r b ∨ b = a)
    (hothers : ∀ r' v, r' ≠ r → T.entry r' v = k.tables.entry r' v)
    (hswap : ¬ k.tables.InSwap r → ¬ T.InSwap r) : Draws r H H k ((k.returned a).setTables T) := by
  have hout : Draws r H (a :: H) k (k.setTables T) := .shrink hpage hothers hswap
  exact (hout.trans (.setMem (.inr (.inl List.mem_cons_self)) (junk 1))).trans .push

/-- A user page is unmapped and freed. -/
theorem Draws.unmapFree (he : k.tables.entry r v = some e) (hv : ¬ Special v) (hV : e.getLsbD pteV = true) :
    Draws r H H k ((k.freed (pte2pa e)).setEntry r v 0) := by
  have hback := (Draws.unmap (H := H) he hv hV).trans .freed
  rw [(Kernel.dropFrame_same _).1] at hback
  have htab : (k.freed (pte2pa e)).tables = k.tables := (Kernel.dropFrame_same (pte2pa e)).2.1
  unfold Kernel.setEntry at hback ⊢
  rw [htab]
  rw [Kernel.dropFrame_setTables] at hback
  exact hback

/-- A swap slot of the table is freed. -/
theorem Draws.freeSlot [SwapStore D] (h : k.tables.InSwap r) (s : Fin maxSwap) :
    Draws r H H k (k.freeSlot s) :=
  ⟨fun _ => Iff.rfl, fun _ _ => rfl, fun _ _ _ => rfl, fun _ => .inl rfl, fun _ => rfl, fun _ => rfl,
    fun hs => absurd h hs⟩

/-! ## Table pages -/

section Links

variable {T : Tables} {t : PageTable} (hr : T r = some t) {i₂ i₁ : Fin 512}

include hr

/-- A level-0 table of a table without user pages is one page less. -/
theorem Tables.pageOf_unlinkLeaf (hempty : ∀ v, T.Empty r v) (hl : T.leafPage r i₂ i₁ = some pa) :
    T.PageOf r a ↔ (T.unlinkLeaf r i₂ i₁).PageOf r a ∨ a = pa := by
  have hleaf := fun j₂ j₁ => leafPage_unlinkLeaf hr r i₂ i₁ j₂ j₁
  constructor
  · rintro (⟨hb, hr'⟩ | ⟨j₂, hm⟩ | ⟨j₂, j₁, hm⟩ | ⟨v, e, hv, he, hV, hb⟩)
    · exact .inl (.root hb (by rw [unlinkLeaf, isSome_mapTable]; exact hr'))
    · exact .inl (.mid j₂ (by rw [midPage_unlinkLeaf hr]; exact hm))
    · by_cases hij : j₂ = i₂ ∧ j₁ = i₁
      · rw [hij.1, hij.2, hl] at hm
        exact .inr (Option.some.inj hm).symm
      · exact .inl (.leaf j₂ j₁ (by rw [hleaf, if_neg fun hf => hij hf.2]; exact hm))
    · exact absurd (hempty v e he) (ne_zero_of_getLsbD hV)
  · rintro ((⟨hb, -⟩ | ⟨j₂, hm⟩ | ⟨j₂, j₁, hm⟩ | ⟨v, e, hv, he, hV, hb⟩) | rfl)
    · exact .root hb (by rw [hr]; rfl)
    · rw [midPage_unlinkLeaf hr] at hm
      exact .mid j₂ hm
    · rw [hleaf] at hm
      split at hm
      · cases hm
      · exact .leaf j₂ j₁ hm
    · rw [entry_unlinkLeaf hr] at he
      split at he
      · cases he
      · exact absurd (hempty v e he) (ne_zero_of_getLsbD hV)
    · exact .leaf i₂ i₁ hl

/-- A level-1 table with nothing under it is one page less. -/
theorem Tables.pageOf_unlinkMid (hempty : ∀ v, T.Empty r v) (hm : T.midPage r i₂ = some pa)
    (hbare : ∀ j₁, T.leafPage r i₂ j₁ = none) :
    T.PageOf r a ↔ (T.unlinkMid r i₂).PageOf r a ∨ a = pa := by
  have hmid := fun j₂ => midPage_unlinkMid hr r i₂ j₂
  have hleaf := fun j₂ j₁ => leafPage_unlinkMid hr r i₂ j₂ j₁
  constructor
  · rintro (⟨hb, hr'⟩ | ⟨j₂, hj⟩ | ⟨j₂, j₁, hj⟩ | ⟨v, e, hv, he, hV, hb⟩)
    · exact .inl (.root hb (by rw [unlinkMid, isSome_mapTable]; exact hr'))
    · by_cases hj₂ : j₂ = i₂
      · rw [hj₂, hm] at hj
        exact .inr (Option.some.inj hj).symm
      · exact .inl (.mid j₂ (by rw [hmid, if_neg fun hf => hj₂ hf.2]; exact hj))
    · have hj₂ : j₂ ≠ i₂ := by
        rintro rfl
        rw [hbare] at hj
        cases hj
      exact .inl (.leaf j₂ j₁ (by rw [hleaf, if_neg fun hf => hj₂ hf.2]; exact hj))
    · exact absurd (hempty v e he) (ne_zero_of_getLsbD hV)
  · rintro ((⟨hb, -⟩ | ⟨j₂, hj⟩ | ⟨j₂, j₁, hj⟩ | ⟨v, e, hv, he, hV, hb⟩) | rfl)
    · exact .root hb (by rw [hr]; rfl)
    · rw [hmid] at hj
      split at hj
      · cases hj
      · exact .mid j₂ hj
    · rw [hleaf] at hj
      split at hj
      · cases hj
      · exact .leaf j₂ j₁ hj
    · rw [entry_unlinkMid hr] at he
      split at he
      · cases he
      · exact absurd (hempty v e he) (ne_zero_of_getLsbD hV)
    · exact .mid i₂ hm

end Links

end Xv6
