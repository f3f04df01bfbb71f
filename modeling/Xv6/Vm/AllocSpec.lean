import Xv6.Vm.Invariant

/-!
# What `kernel/kalloc.c` does

One lemma for each procedure of `Kalloc`. Procedures without a choice get an equation (`_run`);
those that allocate get a judgement `TraceM.Sat (watch c)` from `Ready` states.
-/

namespace Xv6

open Tables Kernel

variable {D : Type} {k : Kernel D}

open TraceM

/-! ## Steps without a choice -/

/-- `walk` without allocation finds the entry. -/
theorem walk_run {pt va : Nat} {t : PageTable} (hva : va < maxva) (ht : k.tables pt = some t) :
    walk pt va k = .ok ((k.tables.entry pt (vpn va)).map fun _ => ⟨pt, vpn va⟩, k, []) := by
  unfold walk
  rw [if_neg (Nat.not_le.mpr hva)]
  simp [ht, entry]

theorem deref_run {p : PtePtr} {e : Pte} (h : k.tables.entry p.table p.page = some e) :
    deref p k = .ok (e, k, []) := by
  unfold deref
  simp [h]

theorem assign_run (p : PtePtr) (e : Pte) :
    assign p e k = .ok ((), k.setEntry p.table p.page e, []) := rfl

theorem acquireFramelock_run (h : k.framelock = false) :
    acquireFramelock k = .ok ((), k.setLock true, []) := by
  unfold acquireFramelock
  simp [h]

theorem acquireFramelock_panic (h : k.framelock = true) :
    acquireFramelock k = .error .acquire := by
  unfold acquireFramelock
  simp [h]

theorem releaseFramelock_run (h : k.framelock = true) :
    releaseFramelock k = .ok ((), k.setLock false, []) := by
  unfold releaseFramelock
  simp [h]

/-- A critical section: take the lock, change the state, release the lock. -/
theorem locked_run {f : Kernel D → Kernel D} (h : k.framelock = false)
    (hf : (f (k.setLock true)).framelock = true) :
    (do acquireFramelock; modify f; releaseFramelock : KM D Unit) k =
      .ok ((), (f (k.setLock true)).setLock false, []) := by
  rw [bind_of_ok (acquireFramelock_run h), modify_bind_apply, releaseFramelock_run hf]

theorem Kernel.clearFrame_lock (i : Fin maxFrames) (b : Bool) :
    (k.setLock b).clearFrame i = (k.clearFrame i).setLock b := by
  unfold Kernel.clearFrame Kernel.setFrame Kernel.updProc Kernel.setLock
  cases (k.frametable i).proc <;> rfl

theorem Kernel.clearFrame_framelock (i : Fin maxFrames) :
    (k.clearFrame i).framelock = k.framelock := by
  unfold Kernel.clearFrame Kernel.setFrame Kernel.updProc
  cases (k.frametable i).proc <;> rfl

theorem Kernel.dropFrame_lock (pa : Nat) (b : Bool) :
    (k.setLock b).dropFrame pa = (k.dropFrame pa).setLock b := by
  unfold Kernel.dropFrame
  dsimp only [Kernel.setLock]
  cases firstIdx fun i => (k.frametable i).pa == pa && (k.frametable i).used with
  | none => rfl
  | some i => exact clearFrame_lock i b

theorem Kernel.dropFrame_framelock (pa : Nat) : (k.dropFrame pa).framelock = k.framelock := by
  unfold Kernel.dropFrame
  cases firstIdx fun i => (k.frametable i).pa == pa && (k.frametable i).used with
  | none => rfl
  | some i => exact clearFrame_framelock i

theorem frametablefree_run (pa : Nat) (h : k.framelock = false) :
    frametablefree pa k = .ok ((), k.dropFrame pa, []) := by
  unfold frametablefree
  rw [locked_run h (by rw [dropFrame_framelock, setLock_framelock]),
    dropFrame_lock]
  have hlock : (k.dropFrame pa).framelock = false := by rw [dropFrame_framelock, h]
  show Except.ok ((), (k.dropFrame pa).setLock false, []) = _
  rw [← hlock]
  rfl

/-- Freeing a frame the table does not know. -/
theorem Kernel.dropFrame_of_unused {pa : Nat} (h : ∀ i, (k.frametable i).used = true →
    (k.frametable i).pa ≠ pa) : k.dropFrame pa = k := by
  unfold Kernel.dropFrame
  have hnone : (firstIdx fun i => (k.frametable i).pa == pa && (k.frametable i).used) = none := by
    rw [firstIdx_eq_none]
    intro i
    by_cases hi : (k.frametable i).used = true
    · simp [h i hi]
    · simp [hi]
  rw [hnone]

/-- Freeing a frame the table knows once. -/
theorem Kernel.dropFrame_of_used {pa : Nat} {i : Fin maxFrames}
    (hi : (k.frametable i).used = true) (hpa : (k.frametable i).pa = pa)
    (honly : ∀ j, (k.frametable j).used = true → (k.frametable j).pa = pa → j = i) :
    k.dropFrame pa = k.clearFrame i := by
  unfold Kernel.dropFrame
  obtain ⟨j, hj⟩ := firstIdx_isSome (p := fun i => (k.frametable i).pa == pa &&
    (k.frametable i).used) (i := i) (by simp [hi, hpa])
  have hholds := firstIdx_holds hj
  simp only [Bool.and_eq_true, beq_iff_eq] at hholds
  rw [hj, honly j hholds.2 hholds.1]

/-- `kfree` puts the page in front of the free list. -/
theorem kfree_run {pa : Nat} (hal : pa % pgsize = 0) (hlo : k.image.kend ≤ pa) (hhi : pa < phystop)
    (h : k.framelock = false) :
    kfree pa k = .ok ((), ((k.dropFrame pa).setMem pa (junk 1)).setFreelist
      (pa :: (k.dropFrame pa).freelist), []) := by
  unfold kfree
  rw [get_bind_apply, if_neg (by omega)]
  beta_reduce
  rw [bind_of_ok (frametablefree_run pa h)]
  rfl

/-- `kfree` panics on an address inside the kernel. -/
theorem kfree_panic {pa : Nat} (h : pa < k.image.kend) : kfree pa k = .error .kfree := by
  unfold kfree
  rw [get_bind_apply, if_pos (by omega)]
  rfl

/-! ## Parts of the invariant -/

theorem watch_allowed [SwapStore D] {c : Ctx} {e : Panic} (h : ¬ e.Wild) :
    (watch c : Watch Panic (Eviction D)).allowed e := ⟨fun _ => h, fun _ h' => h h'.wild⟩

section Facts

variable {c : Ctx} {g : Ledger}

/-- A registered frame is a user page. -/
theorem Inv.own_of_used (h : Inv c g k) {i : Fin maxFrames} (hi : (k.frametable i).used = true) :
    ∃ r v, g (k.frametable i).pa = .page r v := by
  obtain ⟨p, r, e, -, -, hal, hlt, he, hV, hpa⟩ := h.frames.used i hi
  have ho := (h.pages.resident he (not_special_of_lt hal hlt) hV).1
  rw [hpa] at ho
  exact ⟨r, _, ho⟩

theorem Inv.used_of_proc (h : Inv c g k) {i : Fin maxFrames} {p : ProcId}
    (hp : (k.frametable i).proc = some p) : (k.frametable i).used = true := by
  cases hu : (k.frametable i).used with
  | true => rfl
  | false =>
    rw [h.frames.unused i hu] at hp
    cases hp

theorem Inv.dropFrame_of_not_page (h : Inv c g k) {pa : Nat} (hpa : ∀ r v, g pa ≠ .page r v) :
    k.dropFrame pa = k := by
  apply dropFrame_of_unused
  rintro i hi rfl
  obtain ⟨r, v, ho⟩ := h.own_of_used hi
  exact hpa r v ho

theorem Inv.kend_pos (_ : Inv c g k) : 0 < k.image.kend :=
  lt_of_lt_of_le (by decide) k.image.kernbase_le

theorem Inv.ne_zero (h : Inv c g k) {pa : Nat} (hpa : g pa ≠ .idle) : pa ≠ 0 :=
  h.free.ne_zero h.kend_pos hpa

theorem isSome_of_entry {T : Tables} {r : Nat} {v : Vpn} {e : Pte} (h : T.entry r v = some e) :
    ∃ t, T r = some t := by
  unfold entry at h
  cases hT : T r with
  | none => simp [hT] at h
  | some t => exact ⟨t, rfl⟩

end Facts

/-! ## The clock -/

section Clock

variable {R : View D} {c : Ctx} {g : Ledger}

/-- The flags of a valid entry may change. -/
theorem Inv.retouch (h : Inv c g k) {r : Nat} {v : Vpn} {e e' : Pte}
    (he : k.tables.entry r v = some e) (hV : e.getLsbD pteV = true)
    (hV' : e'.getLsbD pteV = true) (hS : e'.getLsbD pteS = e.getLsbD pteS)
    (hup : upper e' = upper e) :
    Inv c g (k.setEntry r v e') := by
  refine ⟨h.free, h.tree.setEntry v e', h.trap, h.pages.retouch he hV hV' hS hup, ?_,
    h.extra⟩
  apply h.frames.congr
  · intro r' w e₀ h₀ _ hV₀
    show ∃ e₁, (k.tables.setEntry r v e').entry r' w = some e₁ ∧ _
    rw [entry_setEntry]
    split
    · next heq =>
        obtain ⟨rfl, rfl⟩ := heq
        rw [he] at h₀ ⊢
        cases h₀
        exact ⟨e', rfl, hV', pte2pa_congr hup⟩
    · exact ⟨e₀, h₀, hV₀, rfl⟩
  · intro r' w e₀ h₀ _ hV₀
    change (k.tables.setEntry r v e').entry r' w = some e₀ at h₀
    rw [entry_setEntry] at h₀
    split at h₀
    · next heq =>
        obtain ⟨rfl, rfl⟩ := heq
        rw [he] at h₀
        cases h₀
        exact ⟨e, he, hV, (pte2pa_congr hup).symm⟩
    · exact ⟨e₀, h₀, hV₀, rfl⟩

variable [SwapStore D]

/-- Setting flags of a resident page is a quiet change. -/
theorem Quiet.retouch {r : Nat} {v : Vpn} {e e' : Pte} (he : k.tables.entry r v = some e)
    (hV : e.getLsbD pteV = true) (hV' : e'.getLsbD pteV = true) (hflags : SameFlags e e')
    (hup : upper e' = upper e) (hv : ¬ Special v) (hx : ∀ p, c.extra ≠ some (p, r)) :
    Quiet R c g k g (k.setEntry r v e') where
  procs _ := rfl
  image := rfl
  active := le_rfl
  own _ _ _ := rfl
  use _ h := h
  mem _ _ := rfl
  tables r' := by simp
  mid r' i m h := by simpa using h
  absent r' w h := by
    left
    rw [setEntry_tables, entry_setEntry, if_neg]
    · exact h
    · rintro ⟨rfl, rfl⟩
      rw [he] at h
      cases h
  invalid r' w e₀ h hV₀ := by
    rw [setEntry_tables, entry_setEntry, if_neg]
    · exact h
    · rintro ⟨rfl, rfl⟩
      rw [he] at h
      cases h
      rw [hV] at hV₀
      cases hV₀
  valid r' w e₀ h hV₀ := by
    rw [setEntry_tables, entry_setEntry]
    split
    · next heq =>
        obtain ⟨rfl, rfl⟩ := heq
        rw [he] at h ⊢
        cases h
        exact ⟨e', rfl, hflags, fun _ => pte2pa_congr hup⟩
    · exact ⟨e₀, h, fun _ _ _ _ _ => rfl, fun _ => rfl⟩
  special r' w e₀ h hw := by
    rw [setEntry_tables, entry_setEntry, if_neg]
    · exact h
    · rintro ⟨-, rfl⟩
      exact hv hw
  extra p r' w e₀ hp h := by
    rw [setEntry_tables, entry_setEntry, if_neg]
    · exact h
    · rintro ⟨rfl, -⟩
      exact hx p hp
  content _ r' w page _ h := by
    show Content R k.mem k.disk ((k.tables.setEntry r v e').entry r' w) page
    rw [entry_setEntry]
    split
    · next heq =>
        obtain ⟨rfl, rfl⟩ := heq
        unfold Holds at h
        rw [he, content_valid hV] at h
        rw [he, Option.map_some, content_valid hV', pte2pa_congr hup]
        exact h
    · exact h

/-- The parts of the state that turns of the clock change. -/
def Kernel.setClock (k : Kernel D) (T : Tables) (hand : Fin maxFrames) : Kernel D :=
  { k with tables := T, clockHand := hand }

/-- What turns of the clock do: they clear reference bits and move the hand. -/
structure Scanned (R : View D) (c : Ctx) (g : Ledger) (k k' : Kernel D) : Prop where
  inv : Inv c g k'
  quiet : Quiet R c g k g k'
  shape : k.tables.SameShape k'.tables
  same : k' = k.setClock k'.tables k'.clockHand

theorem Scanned.refl (h : Inv c g k) : Scanned R c g k k := ⟨h, Quiet.refl, .refl, rfl⟩

theorem Scanned.trans {k' k'' : Kernel D} (h : Scanned R c g k k') (h' : Scanned R c g k' k'') :
    Scanned R c g k k'' := by
  refine ⟨h'.inv, h.quiet.trans h'.quiet, h.shape.trans h'.shape, ?_⟩
  have h₂ := h'.same
  rw [h.same] at h₂
  exact h₂

theorem Scanned.advanceHand (h : Inv c g k) : Scanned R c g k k.advanceHand :=
  ⟨⟨h.free, h.tree, h.trap, h.pages, h.frames, h.extra⟩,
    ⟨fun _ => rfl, rfl, le_rfl, fun _ _ _ => rfl, fun _ h => h, fun _ _ => rfl, fun _ => rfl,
      fun _ _ _ h => h, fun _ _ h => Or.inl h, fun _ _ _ h _ => h,
      fun _ _ e h _ => ⟨e, h, fun _ _ _ _ _ => rfl, fun _ => rfl⟩, fun _ _ _ h _ => h,
      fun _ _ _ _ _ h => h, fun _ _ _ _ _ h => h⟩, .refl, rfl⟩

theorem sameFlags_clearA (e : Pte) : SameFlags e (e &&& ~~~ bit pteA) := by
  intro n hn _ _ hA
  have hne : ¬ pteA = n := fun h => hA h.symm
  simp [getLsbD_and_not_bit (show n < 64 by omega), hne]

/-- Clearing the reference bit of a registered page. -/
theorem Scanned.clearA (h : Inv c g k) {p : ProcId} {v : Vpn} {e : Pte}
    (he : k.tables.entry (k.proc p).pagetable v = some e) (hV : e.getLsbD pteV = true)
    (hv : ¬ Special v) :
    Scanned R c g k (k.setEntry (k.proc p).pagetable v (e &&& ~~~ bit pteA)) := by
  have hbit : ∀ n, n < 64 → ¬ pteA = n → (e &&& ~~~ bit pteA).getLsbD n = e.getLsbD n := by
    intro n hn hne
    simp [getLsbD_and_not_bit hn, hne]
  have hV' : (e &&& ~~~ bit pteA).getLsbD pteV = true := by
    rw [hbit pteV (by decide) (by decide), hV]
  have hup := upper_and_not_bit e (show pteA < 10 by decide)
  exact ⟨h.retouch he hV hV' (hbit pteS (by decide) (by decide)) hup,
    .retouch he hV hV' (sameFlags_clearA e) hup hv (fun q hx => h.extra q _ hx p rfl),
    .setEntry _ _ _, rfl⟩

end Clock

/-! ## The clock -/

section Sweep

variable {W : Watch Panic (Eviction D)} {T : Kernel D → Prop} {k₁ : Kernel D} {me : ProcId} {best : Best}

theorem walk_missing {pt va : Nat} (hva : va < maxva) (ht : k.tables pt = none) :
    walk pt va k = .error .kerneltrap := by
  unfold walk
  rw [if_neg (Nat.not_le.mpr hva)]
  simp [ht]

/-- `walk` panics where that is allowed, or returns what the table holds. -/
theorem walk_sat {α : Type} {pt va : Nat} {f : Option PtePtr → KM D α} {Q : α → Kernel D → Prop}
    (hva : va < maxva ∨ W.allowed .walk) (ht : (∃ t, k.tables pt = some t) ∨ W.allowed .kerneltrap)
    (h : ∀ t, va < maxva → k.tables pt = some t →
      Sat W (f ((k.tables.entry pt (vpn va)).map fun _ => ⟨pt, vpn va⟩)) Q k) :
    Sat W (walk pt va >>= f) Q k := by
  by_cases hlt : va < maxva
  · cases htab : k.tables pt with
    | none => exact Sat.of_error (bind_of_error (walk_missing hlt htab)) (ht.resolve_left (by simp [htab]))
    | some t => exact Sat.seq_run (walk_run hlt htab) (h t hlt htab)
  · refine Sat.of_error (e := .walk) (bind_of_error ?_) (hva.resolve_left hlt)
    unfold walk
    rw [if_pos (Nat.not_lt.mp hlt)]
    rfl

/-- The fallback finds an entry with a process. -/
theorem Kernel.anyVictim_proc {i : Fin maxFrames} (h : k.anyVictim me = some i) :
    (k.frametable i).proc ≠ none := by
  intro hnone
  have hholds := firstIdx_holds h
  rw [hnone] at hholds
  cases hholds

/-- The candidate of the scan has a process. -/
def Best.HasProc (k : Kernel D) (best : Best) : Prop :=
  ∀ i, best.idx = some i → (k.frametable i).proc ≠ none

/-- The clock stays in the states `T`: its hand moves, and it clears reference bits of valid pages that the
frame table names. A page table that it walks is there, or the panic is allowed. -/
structure Sweeps (W : Watch Panic (Eviction D)) (k : Kernel D) (T : Kernel D → Prop) : Prop where
  start : T k
  frames : ∀ {k₁}, T k₁ → k₁.frametable = k.frametable
  walks : ∀ {k₁ i p}, T k₁ → (k.frametable i).proc = some p →
    ((k.frametable i).va < maxva ∨ W.allowed .walk) ∧
      ((∃ t, k₁.tables (k₁.proc p).pagetable = some t) ∨ W.allowed .kerneltrap)
  advance : ∀ {k₁}, T k₁ → T k₁.advanceHand
  clear : ∀ {k₁ i p e}, T k₁ → (k.frametable i).proc = some p →
    k₁.tables.entry (k₁.proc p).pagetable (vpn (k.frametable i).va) = some e → e.getLsbD pteV = true →
    T (k₁.setEntry (k₁.proc p).pagetable (vpn (k.frametable i).va) (e &&& ~~~ bit pteA))

/-- One turn of the clock. -/
theorem clockLook_sat (hT : Sweeps W k T) (h : T k₁) (hbest : best.HasProc k) :
    Sat W (clockLook me best) (fun b k' => T k' ∧ b.HasProc k) k₁ := by
  unfold clockLook
  apply Sat.seq_get
  dsimp only
  rw [hT.frames h]
  split
  · exact Sat.ret ⟨h, hbest⟩
  · next p hp =>
      split
      · exact Sat.ret ⟨h, hbest⟩
      · apply walk_sat (hT.walks h hp).1 (hT.walks h hp).2
        intro t _ _
        cases he : k₁.tables.entry (k₁.proc p).pagetable (vpn (k.frametable k₁.clockHand).va) with
        | none => exact Sat.ret ⟨h, hbest⟩
        | some e =>
          apply Sat.seq_run (deref_run he)
          split
          · next hV =>
              split
              · apply Sat.seq_run (assign_run _ _)
                exact Sat.ret ⟨hT.clear h hp he hV, hbest⟩
              · split
                · refine Sat.ret ⟨h, ?_⟩
                  intro i hi
                  cases hi
                  rw [hp]
                  simp
                · exact Sat.ret ⟨h, hbest⟩
          · exact Sat.ret ⟨h, hbest⟩

/-- All turns of the clock. -/
theorem clockScan_sat (hT : Sweeps W k T) (n : Nat) : ∀ {k₁ : Kernel D} {best : Best}, T k₁ → best.HasProc k →
    Sat W (clockScan me n best) (fun b k' => T k' ∧ b.HasProc k) k₁ := by
  induction n with
  | zero =>
    intro k₁ best h hbest
    exact Sat.ret ⟨h, hbest⟩
  | succ n ih =>
    intro k₁ best h hbest
    apply Sat.seq
    apply (clockLook_sat hT h hbest).mono
    rintro b k₂ ⟨h₂, hb⟩
    apply Sat.seq_update
    exact ih (hT.advance h₂) hb

/-- The lock makes no difference to the clock. -/
theorem Sweeps.locked (hT : Sweeps W k T) (hlock : k.framelock = false) :
    Sweeps W (k.setLock true) fun k₁ => T (k₁.setLock false) ∧ k₁.framelock = true := by
  refine ⟨⟨?_, rfl⟩, fun h => (hT.frames h.1 :), fun h hp => (hT.walks h.1 hp :),
    fun h => ⟨hT.advance h.1, h.2⟩, fun h hp he hV => ⟨hT.clear h.1 hp he hV, h.2⟩⟩
  show T (k.setLock false)
  rw [← hlock]
  exact hT.start

/-- **The first section of `clock_evict`** finds no victim, or hides the entry of one. -/
theorem clockSelect_sat (hlock : k.framelock = false) (hT : Sweeps W k T) :
    Sat W (clockSelect me) (fun r k' => ∃ k₁, T k₁ ∧
      match r with
      | none => k' = k₁
      | some v => (k.frametable v.idx).proc = some v.proc ∧ (k.frametable v.idx).va = v.va ∧
          k' = k₁.hideFrame v.idx) k := by
  unfold clockSelect
  apply Sat.seq_run (acquireFramelock_run hlock)
  apply Sat.seq
  have hT' := hT.locked hlock
  apply (clockScan_sat hT' (maxFrames * 2) hT'.start (by intro i hi; cases hi)).mono
  rintro b k₁ ⟨⟨h₁, hlock₁⟩, hb⟩
  have hft : (k₁.setLock false).frametable = k.frametable := hT.frames h₁
  change k₁.frametable = k.frametable at hft
  apply Sat.seq_get
  dsimp only
  split
  · apply Sat.seq_run (releaseFramelock_run hlock₁)
    exact Sat.ret ⟨_, h₁, rfl⟩
  · next i hi =>
      apply Sat.seq_update
      apply Sat.seq_run (releaseFramelock_run (k := k₁.hideFrame i) hlock₁)
      obtain ⟨p, hp⟩ : ∃ p, (k.frametable i).proc = some p := by
        rw [← Option.ne_none_iff_exists']
        split at hi
        · rw [← hft]
          exact anyVictim_proc hi
        · cases hi
          exact hb i ‹_›
      rw [hft, hp]
      exact Sat.ret ⟨_, h₁, hp, rfl, rfl⟩

end Sweep

/-- In an orderly kernel the clock does nothing but clear reference bits and move its hand. -/
theorem Ready.sweeps [SwapStore D] {R : View D} {c : Ctx} {g : Ledger} (h : Ready c g k) :
    Sweeps (watch c) k (Scanned R c g k) := by
  have hproc : ∀ {k₁}, Scanned R c g k k₁ → k₁.proc = k.proc := fun h₁ => by rw [h₁.same]; rfl
  have hused : ∀ {i p}, (k.frametable i).proc = some p → ∃ r e, (r = (k.proc p).pagetable ∨ c.extra = some (p, r)) ∧
      (k.frametable i).va % pgsize = 0 ∧ (k.frametable i).va < trapframe ∧
      k.tables.entry r (vpn (k.frametable i).va) = some e := by
    intro i p hp
    obtain ⟨p', r, e, hp', hr, hal, hlt, he, -, -⟩ := h.inv.frames.used _ (h.inv.used_of_proc hp)
    rw [hp] at hp'
    cases hp'
    exact ⟨r, e, hr, hal, hlt, he⟩
  refine ⟨.refl h.inv, fun h₁ => by rw [h₁.same]; rfl, ?_, fun h₁ => h₁.trans (.advanceHand h₁.inv), ?_⟩
  · intro k₁ i p h₁ hp
    obtain ⟨r, e, hr, hal, hlt, he⟩ := hused hp
    refine ⟨.inl (lt_trans hlt (by decide)), ?_⟩
    rcases hr with rfl | hr
    · obtain ⟨t, ht⟩ := isSome_of_entry he
      rw [hproc h₁]
      exact .inl (Option.isSome_iff_exists.mp ((h₁.quiet.tables _).trans (by rw [ht]; rfl)))
    · -- the entry belongs to the table under construction
      refine .inr ⟨fun hnone => ?_, fun _ => id⟩
      rw [hnone] at hr
      cases hr
  · intro k₁ i p e h₁ hp he hV
    obtain ⟨-, -, -, hal, hlt, -⟩ := hused hp
    exact h₁.trans (.clearA h₁.inv he hV (not_special_of_lt hal hlt))

/-! ## Swapping out -/

section Swapout

theorem onDisk_run {α : Type} {x : PanicM DiskPanic D α} {a : α} {d : D}
    (h : x k.disk = .ok (a, d)) : onDisk x k = .ok (a, k.setDisk d, []) := by
  unfold onDisk
  rw [h]

theorem onDisk_panic {α : Type} {x : PanicM DiskPanic D α} {e : DiskPanic}
    (h : x k.disk = .error e) : onDisk x k = .error (.disk e) := by
  unfold onDisk
  rw [h]

variable [SwapStore D]

/-- What a `swapout` that returns leaves behind. -/
def SwapoutResult (me : ProcId) (pt va : Nat) (k : Kernel D) :
    Option (Fin maxSwap) → Kernel D → Prop
  | none, k' => k' = k ∧ ((∀ e, k.tables.entry pt (vpn va) = some e → e.getLsbD pteV = false) ∨
      ∀ s, (k.swaptable s).used = true)
  | some s, k' => ∃ e d, k.tables.entry pt (vpn va) = some e ∧ e.getLsbD pteV = true ∧
      (k.swaptable s).used = false ∧ (∀ t < s, (k.swaptable t).used = true) ∧
      SwapStore.swapOutPage (k.caller me) (k.mem (pte2pa e)) s k.disk = .ok ((), d) ∧
      k' = ((k.setSlot s ⟨true, pt, va, SwapStore.raidMode k.disk⟩).setDisk
        (SwapStore.noteWrite me d)).setEntry pt (vpn va) (swapEntry s e)

theorem takeSlot_eq_none {pt va : Nat} (h : k.takeSlot pt va = none) (s : Fin maxSwap) :
    (k.swaptable s).used = true := by
  unfold Kernel.takeSlot at h
  simpa using firstIdx_eq_none.mp (Option.map_eq_none_iff.mp h) s

/-- `swapout` takes the first free slot. -/
theorem takeSlot_eq_some {pt va : Nat} {s : Fin maxSwap} {k' : Kernel D}
    (h : k.takeSlot pt va = some (s, k')) :
    (k.swaptable s).used = false ∧ (∀ t < s, (k.swaptable t).used = true) ∧
      k' = k.setSlot s ⟨true, pt, va, SwapStore.raidMode k.disk⟩ := by
  unfold Kernel.takeSlot at h
  obtain ⟨t, ht, heq⟩ := Option.map_eq_some_iff.mp h
  cases heq
  exact ⟨by simpa using firstIdx_holds ht, fun j hj => by simpa using firstIdx_before ht hj, rfl⟩

/-- **`swapout`** moves the page to a free slot, or fails for want of one. -/
theorem swapout_spec {W : Watch Panic (Eviction D)} (hW : ∀ e, W.allowed (.disk e)) (me : ProcId)
    {pt va : Nat} {t : PageTable} (hva : va < maxva) (ht : k.tables pt = some t) :
    Sat W (swapout me pt va) (SwapoutResult me pt va k) k := by
  unfold swapout
  apply Sat.seq_run (walk_run hva ht)
  cases he : k.tables.entry pt (vpn va) with
  | none => exact Sat.ret ⟨rfl, Or.inl (by rw [he]; intro e h; cases h)⟩
  | some e =>
    apply Sat.seq_run (deref_run he)
    split
    · next hV =>
        refine Sat.ret ⟨rfl, Or.inl ?_⟩
        rw [he]
        intro e' h
        cases h
        exact hV
    · next hV =>
        apply Sat.seq_get
        cases hslot : k.takeSlot pt va with
        | none => exact Sat.ret ⟨rfl, Or.inr (takeSlot_eq_none hslot)⟩
        | some r =>
          obtain ⟨s, k₁⟩ := r
          obtain ⟨hfree, hlow, rfl⟩ := takeSlot_eq_some hslot
          apply Sat.seq_run rfl
          cases hout : SwapStore.swapOutPage (k.caller me) (k.mem (pte2pa e)) s k.disk with
          | error err => exact Sat.of_error (bind_of_error (onDisk_panic hout)) (hW err)
          | ok r =>
            obtain ⟨⟨⟩, d⟩ := r
            apply Sat.seq_run (onDisk_run (k := k.setSlot s _) hout)
            apply Sat.seq_update
            refine Sat.seq_run (deref_run (e := e) he) ?_
            apply Sat.seq_run (assign_run _ _)
            exact Sat.ret ⟨e, d, he, by simpa using hV, hfree, hlow, hout, rfl⟩

end Swapout

end Xv6
