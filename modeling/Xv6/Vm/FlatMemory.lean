import Xv6.Vm.System

/-!
# Paging is transparent

To user code memory is flat: each process has one byte at each address, a load returns the byte last
stored, and memory that was never stored to is zero. `Flat` is that memory. A kernel describes a flat
memory when every user page, wherever it is, has the content that the memory gives it. Loads, stores,
page faults and evictions keep the two together, provided that the swap device returns what was written
to it.
-/

namespace Xv6

open TraceM Function Transition

/-! ## Flat memory -/

/-- One byte at each address of each process. -/
abbrev Flat := ProcId → Nat → UInt8

/-- The content of a page. -/
def Flat.page (m : Flat) (p : ProcId) (v : Vpn) : Page := fun o => m p (v.addr + o)

/-- What the operations do to a flat memory; calls into the kernel do nothing. -/
def Flat.Step (m : Flat) : VmOp → Flat → Prop
  | .load p va b, m' => b = m p va ∧ m' = m
  | .store p va b, m' => m' = update m p (update (m p) va b)
  | .call _, m' => m' = m
  | .schedule _ _, m' => m' = m

/-- The byte that was stored last at an address. -/
def lastStored (p : ProcId) (va : Nat) : List VmOp → Option UInt8
  | [] => none
  | .store q a b :: ops => (lastStored p va ops).or (if q = p ∧ a = va then some b else none)
  | _ :: ops => lastStored p va ops

/-- The last store to a byte counts. -/
theorem lastStored_snoc_store {p q : ProcId} {va a : Nat} {b : UInt8} (ops : List VmOp) :
    lastStored p va (ops ++ [.store q a b]) =
      if q = p ∧ a = va then some b else lastStored p va ops := by
  induction ops with
  | nil =>
    show (none : Option UInt8).or _ = _
    rw [Option.none_or]
    rfl
  | cons op ops ih =>
    cases op with
    | store q' a' b' =>
      show (lastStored p va (ops ++ _)).or _ = if _ then _ else (lastStored p va ops).or _
      rw [ih]
      split <;> rfl
    | load => exact ih
    | call => exact ih
    | schedule => exact ih

theorem lastStored_snoc_other {p : ProcId} {va : Nat} {op : VmOp} (ops : List VmOp)
    (h : ∀ q a b, op ≠ .store q a b) : lastStored p va (ops ++ [op]) = lastStored p va ops := by
  induction ops with
  | nil =>
    cases op with
    | store q a b => exact absurd rfl (h q a b)
    | load => rfl
    | call => rfl
    | schedule => rfl
  | cons op' ops ih =>
    cases op' with
    | store q a b =>
      show (lastStored p va (ops ++ _)).or _ = (lastStored p va ops).or _
      rw [ih]
    | load => exact ih
    | call => exact ih
    | schedule => exact ih

/-- A flat memory holds at each address what was stored there last. -/
theorem Flat.run_last {m₀ m : Flat} {ops : List VmOp} (h : Run Flat.Step m₀ ops m) (p : ProcId)
    (va : Nat) : m p va = (lastStored p va ops).getD (m₀ p va) := by
  induction h with
  | nil => rfl
  | @snoc ops m m' op _ hstep ih =>
    cases op with
    | store q a b =>
      change m' = update m q (update (m q) a b) at hstep
      rw [hstep, lastStored_snoc_store]
      by_cases hq : q = p
      · subst hq
        rw [update_self]
        by_cases ha : a = va
        · rw [ha, update_self, if_pos ⟨rfl, rfl⟩]
          rfl
        · rw [update_of_ne (Ne.symm ha), if_neg fun h => ha h.2, ih]
      · rw [update_of_ne (Ne.symm hq), if_neg fun h => hq h.1, ih]
    | load q a b =>
      rw [hstep.2, lastStored_snoc_other _ (by simp), ih]
    | call c =>
      change m' = m at hstep
      rw [hstep, lastStored_snoc_other _ (by simp), ih]
    | schedule q st =>
      change m' = m at hstep
      rw [hstep, lastStored_snoc_other _ (by simp), ih]

/-- A load returns what was stored last. -/
theorem Flat.load_last {m₀ m : Flat} {ops post pre : List VmOp} {p : ProcId} {va : Nat} {b : UInt8}
    (h : Run Flat.Step m₀ ops m) (hops : ops = pre ++ .load p va b :: post) :
    b = (lastStored p va pre).getD (m₀ p va) := by
  obtain ⟨m₁, m₂, hrun, hb, -⟩ := h.split hops
  rw [hb, Flat.run_last hrun]

/-! ## Kernels that describe a memory -/

section Describes

variable {D : Type} {R : View D} {k k' : Kernel D} {m : Flat} {p : ProcId} {v : Vpn} {e : Pte} {va : Nat}

/-- Every user page of every process has the content that `m` gives it. -/
def Describes (R : View D) (k : Kernel D) (m : Flat) : Prop :=
  ∀ p, (k.proc p).state ≠ .unused → ∀ v, ¬ Special v → Holds R k (k.proc p).pagetable v (m.page p v)

/-- Every slot in use has a page in it. -/
def Stocked (R : View D) (k : Kernel D) : Prop :=
  ∀ s, (k.swaptable s).used = true → ∃ page, R k.disk s page

theorem vpn_add (v : Vpn) (o : Fin pgsize) : vpn (v.addr + o) = v := by
  obtain ⟨⟨a, ha⟩, ⟨b, hb⟩, ⟨c, hc⟩⟩ := v
  have ho := o.isLt
  simp only [vpn, px, Vpn.addr, Vpn.mk.injEq, Fin.mk.injEq, pgsize] at *
  omega

theorem pageOffset_add (v : Vpn) (o : Fin pgsize) : pageOffset (v.addr + o) = o := by
  apply Fin.ext
  have ho := o.isLt
  show (v.addr + o) % pgsize = o
  rw [Nat.add_mod, v.addr_aligned, Nat.zero_add, Nat.mod_mod, Nat.mod_eq_of_lt ho]

theorem addr_add_offset (hva : va < maxva) : (vpn va).addr + pageOffset va = va := by
  rw [← vpn_pgrounddown, addr_vpn (pgrounddown_aligned va) (lt_of_le_of_lt (pgrounddown_le va) hva)]
  exact Nat.div_add_mod' va pgsize

/-- A consistent kernel describes a memory. -/
theorem Consistent.describes (h : Consistent k) (hs : Stocked R k) : ∃ m, Describes R k m := by
  have hpage : ∀ (p : ProcId) (v : Vpn), ∃ page, Holds R k (k.proc p).pagetable v page := by
    intro p v
    obtain ⟨g, hready⟩ := h.ready
    unfold Holds
    cases he : k.tables.entry (k.proc p).pagetable v with
    | none => exact ⟨_, rfl⟩
    | some e =>
      cases hV : e.getLsbD pteV with
      | true => exact ⟨_, (content_valid hV).mpr rfl⟩
      | false =>
        cases hS : e.getLsbD pteS with
        | true =>
          obtain ⟨s, hidx, hused, -⟩ := hready.inv.pages.swapped he hV hS
          obtain ⟨page, hR⟩ := hs s hused
          exact ⟨page, (content_swapped hV hS).mpr ⟨s, hidx, hR⟩⟩
        | false => exact ⟨_, (content_empty hV hS).mpr rfl⟩
  choose page hholds using hpage
  refine ⟨fun p a => page p (vpn a) (pageOffset a), fun p _ v _ => ?_⟩
  have heq : Flat.page (fun p a => page p (vpn a) (pageOffset a)) p v = page p v := by
    funext o
    show page p (vpn (v.addr + o)) (pageOffset (v.addr + o)) = _
    rw [vpn_add, pageOffset_add]
  rw [heq]
  exact hholds p v

/-- Pages that nothing was mapped at are zero. -/
theorem Describes.zero (h : Describes R k m) (hp : (k.proc p).state ≠ .unused) (hva : va < maxva)
    (hv : ¬ Special (vpn va)) (h0 : k.pte p (vpn va) = 0) : m p va = 0 := by
  have hholds := h p hp (vpn va) hv
  have hpage : m.page p (vpn va) = junk 0 := by
    unfold Holds at hholds
    cases he : k.tables.entry (k.proc p).pagetable (vpn va) with
    | none =>
      rw [he] at hholds
      exact hholds
    | some e =>
      obtain rfl : e = 0 := (Kernel.pte_of_entry he).symm.trans h0
      rw [he, content_empty (getLsbD_zero_entry _) (getLsbD_zero_entry _)] at hholds
      exact hholds
  have := congrFun hpage (pageOffset va)
  unfold Flat.page at this
  rw [addr_add_offset hva] at this
  exact this

/-- A page in memory. -/
theorem Describes.resident (h : Describes R k m) (hp : (k.proc p).state ≠ .unused) (hv : ¬ Special v)
    (he : k.tables.entry (k.proc p).pagetable v = some e) (hV : e.getLsbD pteV = true) :
    m.page p v = k.mem (pte2pa e) := by
  have hholds := h p hp v hv
  unfold Holds at hholds
  rw [he, content_valid hV] at hholds
  exact hholds

/-- User code reads what the memory says. -/
theorem Describes.byte (h : Describes R k m) (hk : Consistent k) {perm : Nat} (ha : k.Access p va perm e) :
    k.mem (pte2pa e) (pageOffset va) = m p va := by
  obtain ⟨hp, hva, he, hV, -, -⟩ := ha
  have hmax : va < maxva := lt_of_lt_of_le hva ((hk.spaces.each p).size.trans (by decide))
  rw [← h.resident hp (hk.not_special hva) he hV]
  show m p _ = m p va
  rw [addr_add_offset hmax]

/-- A change after which every page of a process in use has the content it had. -/
theorem Describes.keep (h : Describes R k m) (hk : Keeps R k k')
    (hpt : ∀ p, (k'.proc p).pagetable = (k.proc p).pagetable)
    (hst : ∀ p, (k'.proc p).state ≠ .unused → (k.proc p).state ≠ .unused) : Describes R k' m := by
  intro p hp v hv
  rw [hpt]
  exact hk _ v _ hv (h p (hst p hp) v hv)

/-- Setting flags of a valid entry keeps all contents. -/
theorem Keeps.retouch {r : Nat} {e' : Pte} (he : k.tables.entry r v = some e) (hV : e.getLsbD pteV = true)
    (hV' : e'.getLsbD pteV = true) (hup : upper e' = upper e) : Keeps R k (k.setEntry r v e') := by
  intro r' w page _ hp
  show Content R k.mem k.disk ((k.tables.setEntry r v e').entry r' w) page
  rw [Tables.entry_setEntry]
  split
  · next heq =>
      obtain ⟨rfl, rfl⟩ := heq
      unfold Holds at hp
      rw [he, content_valid hV] at hp
      rw [he, Option.map_some, content_valid hV', pte2pa_congr hup]
      exact hp
  · exact hp

/-- The frame of a resident page is written. -/
theorem Describes.setPage (h : Describes R k m) (hk : Consistent k) (hp : (k.proc p).state ≠ .unused)
    (hv : ¬ Special v) (he : k.tables.entry (k.proc p).pagetable v = some e) (hV : e.getLsbD pteV = true)
    {m' : Flat} (hm' : ∀ q w, ¬ (q = p ∧ w = v) → m'.page q w = m.page q w) :
    Describes R (k.setMem (pte2pa e) (m'.page p v)) m' := by
  obtain ⟨g, hready⟩ := hk.ready
  intro q hq w hw
  by_cases hsame : q = p ∧ w = v
  · obtain ⟨rfl, rfl⟩ := hsame
    show Content R _ _ (k.tables.entry (k.proc q).pagetable w) _
    rw [he, content_valid hV]
    show _ = update k.mem (pte2pa e) (m'.page q w) (pte2pa e)
    rw [update_self]
  · rw [hm' q w hsame]
    refine Content.transfer (h q hq w hw) ?_ fun _ _ _ _ _ _ hR => hR
    intro e' he' hV'
    refine update_of_ne ?_ _ _
    intro heq
    obtain ⟨hr, hwv⟩ := hready.inv.pages.frame_injective he hv hV he' hw hV' heq
    exact hsame ⟨hk.owner_eq he hr, hwv⟩

/-- **A store** changes one byte of the memory. -/
theorem Describes.store (h : Describes R k m) (hk : Consistent k) {b : UInt8} (ha : k.Access p va pteW e) :
    Describes R (k.stored p va b e) (update m p (update (m p) va b)) := by
  obtain ⟨hp, hva, he, hV, -, -⟩ := ha
  have hmax : va < maxva := lt_of_lt_of_le hva ((hk.spaces.each p).size.trans (by decide))
  have hv := hk.not_special hva
  have hself : Flat.page (update m p (update (m p) va b)) p (vpn va) =
      update (k.mem (pte2pa e)) (pageOffset va) b := by
    rw [← h.resident hp hv he hV]
    funext o
    show update m p (update (m p) va b) p ((vpn va).addr + o) = _
    rw [update_self]
    by_cases ho : o = pageOffset va
    · rw [ho, addr_add_offset hmax, update_self, update_self]
    · have hne : (vpn va).addr + o ≠ va := by
        intro heq
        apply ho
        rw [← pageOffset_add (vpn va) o, heq]
      rw [update_of_ne hne, update_of_ne ho]
      rfl
  -- the store itself, before the flags are set
  have hother : ∀ q w, ¬ (q = p ∧ w = vpn va) →
      Flat.page (update m p (update (m p) va b)) q w = m.page q w := by
    intro q w hsame
    funext o
    show update m p (update (m p) va b) q (w.addr + o) = m q (w.addr + o)
    by_cases hqp : q = p
    · subst hqp
      rw [update_self, update_of_ne]
      intro heq
      exact hsame ⟨rfl, by rw [← heq, vpn_add]⟩
    · rw [update_of_ne hqp]
  have hmem := h.setPage hk hp hv he hV hother
  rw [hself] at hmem
  refine hmem.keep (Keeps.retouch he hV ?_ ?_) (fun _ => rfl) fun _ => id
  · rw [getLsbD_or_bit (by decide) (by decide), getLsbD_or_bit (by decide) (by decide)]
    exact hV
  · rw [upper_or_bit _ (by decide), upper_or_bit _ (by decide)]

end Describes

/-! ## The refinement -/

/-- Accesses by user code, page faults, evictions and scheduling. -/
def VmOp.Paging : VmOp → Prop
  | load _ _ _ | store _ _ _ | schedule _ _ => True
  | call (.vmfault _ _) | call (.clockEvict _) => True
  | call _ => False

section Refinement

variable {D : Type} [SwapStore D] {R : View D} {k k' k₀ : Kernel D} {m : Flat}

/-- Page faults and evictions keep the content of every page. -/
theorem KernelCall.run_keeps (hR : Reliable R) (h : Consistent k) {c : KernelCall} (hc : c.Allowed k)
    (hp : (VmOp.call c).Paging) : Sat (watch .plain) c.run (fun _ k' => Keeps R k k' ∧
      ∀ p, (k.proc p).SameButStats (k'.proc p)) k := by
  obtain ⟨g, hready⟩ := h.ready
  cases c with
  | vmfault p va =>
    have hspace := h.spaces.each p
    apply Sat.seq_get
    apply Sat.seq
    apply (vmfault_spec (R := R) va hready (hspace.table (h.live p hc)) hspace.size).mono
    intro pa k₁ hfault
    exact Sat.ret ⟨hfault.keeps hR, hfault.calm.procs⟩
  | clockEvict p =>
    apply Sat.seq
    apply (clockEvict_spec (R := R) p hready).mono
    rintro pa k₁ ⟨⟨g₁, -, hquiet, -, -⟩, -⟩
    exact Sat.ret ⟨hquiet.content hR, hquiet.procs⟩
  | growproc p n => exact hp.elim
  | sysSbrk p n eager => exact hp.elim
  | kfork p => exact hp.elim
  | freeproc p => exact hp.elim

/-- One step of the machine is one step of the flat memory. -/
theorem Describes.step (hR : Reliable R) (h : Describes R k m) (hk : Consistent k) {op : VmOp}
    (hp : op.Paging) (hstep : op.Step k k') : ∃ m', Flat.Step m op m' ∧ Describes R k' m' := by
  cases op with
  | load p va b =>
    obtain ⟨e, ha, rfl, rfl⟩ := hstep
    refine ⟨m, ⟨h.byte hk ha, rfl⟩, ?_⟩
    obtain ⟨-, -, he, hV, -, -⟩ := ha
    refine h.keep (Keeps.retouch he hV ?_ (upper_or_bit e (by decide))) (fun _ => rfl) fun _ => id
    rw [getLsbD_or_bit (by decide) (by decide)]
    exact hV
  | store p va b =>
    obtain ⟨e, ha, rfl⟩ := hstep
    exact ⟨_, rfl, h.store hk ha⟩
  | call c =>
    obtain ⟨hc, l, hok⟩ := hstep
    obtain ⟨hkeeps, hprocs⟩ := (sat_plain (KernelCall.run_keeps hR hk hc hp)).2 _ _ _ hok
    refine ⟨m, rfl, h.keep hkeeps (fun p => (hprocs p).pagetable) fun p => ?_⟩
    rw [(hprocs p).state]
    exact id
  | schedule p st =>
    obtain ⟨hused, -, rfl⟩ := hstep
    refine ⟨m, rfl, h.keep (fun _ _ _ _ hp => hp) ?_ ?_⟩
    · exact Kernel.updProc_pagetable (k := k) (f := fun q => { q with state := st }) (fun _ => rfl) p
    · intro q hq
      by_cases hqp : q = p
      · rw [hqp]
        exact hused
      · change (update k.proc p _ q).state ≠ _ at hq
        rwa [update_of_ne hqp] at hq

/-- **Paging is transparent.** Let the swap device return for each slot in use the page last written to
it. A consistent kernel describes a flat memory, zero wherever no page is mapped or swapped out. Every
run of loads, stores, page faults and evictions is a run of that memory: a load returns the byte last
stored at its address by its process, or, if there was no store, the byte that was there at the
start. -/
theorem paging_transparent (hR : Reliable R) (h₀ : Consistent k₀) (hs : Stocked R k₀) :
    ∃ m₀ : Flat, Describes R k₀ m₀ ∧
      (∀ p va, va < (k₀.proc p).sz → (k₀.proc p).state ≠ .unused → k₀.pte p (vpn va) = 0 → m₀ p va = 0) ∧
      ∀ ops k, Run (Guarded (fun k op k' => VmOp.Step k op k') fun _ op => op.Paging)
          k₀ ops k →
        (∃ m, Run Flat.Step m₀ ops m ∧ Describes R k m) ∧
        ∀ pre post p va b, ops = pre ++ .load p va b :: post →
          b = (lastStored p va pre).getD (m₀ p va) := by
  obtain ⟨m₀, hm₀⟩ := h₀.describes hs
  refine ⟨m₀, hm₀, ?_, fun ops k hrun => ?_⟩
  · intro p va hva hp h0
    refine hm₀.zero hp ?_ (h₀.not_special hva) h0
    exact lt_of_lt_of_le hva ((h₀.spaces.each p).size.trans (by decide))
  · have hsim : ∃ m, Run Flat.Step m₀ ops m ∧ Describes R k m ∧ Consistent k := by
      refine hrun.simulate (I := fun k m => Describes R k m ∧ Consistent k) ⟨hm₀, h₀⟩ ?_
      rintro k m op k' ⟨hm, hk⟩ ⟨hp, hstep⟩
      obtain ⟨m', hflat, hm'⟩ := hm.step hR hk hp hstep
      exact ⟨m', hflat, hm', hk.step hstep⟩
    obtain ⟨m, hflat, hm, -⟩ := hsim
    exact ⟨⟨m, hflat, hm⟩, fun pre post p va b hops => Flat.load_last hflat hops⟩

end Refinement

/-- What an array of pages stores. -/
def PageArray.view : View PageArray := fun d s page => d.page s = page

/-- An array of pages keeps what it is given. -/
theorem PageArray.reliable : Reliable PageArray.view where
  out := by
    rintro me page s d _ ⟨⟩
    exact update_self ..
  out_other := by
    rintro me page s t d _ q ⟨⟩ hts hq
    refine (update_of_ne ?_ ..).trans hq
    exact fun heq => hts (Fin.ext heq)
  back := by
    rintro me buf s d _ _ q ⟨⟩ hq
    exact hq
  back_other := by
    rintro me buf s t d _ _ q ⟨⟩ hq
    exact hq
  free_other := fun _ hq => hq
  noteWrite := fun hq => hq
  noteRead := fun hq => hq

/-- A byte is stored, its page goes out to swap, and a load finds it after a page fault. -/
def Family.trip (b : UInt8) : List VmOp :=
  [.store 0 5 7, .call (.clockEvict 0), .call (.clockEvict 0), .call (.vmfault 0 5), .load 0 5 b]

/-- The load returns the byte. -/
theorem paging_transparent_family : ∃ m₀ : Flat, Describes PageArray.view Family.grown m₀ ∧
    (∃ k, Run (Guarded (fun k op k' => VmOp.Step k op k') fun _ op => op.Paging)
      Family.grown (Family.trip 7) k) ∧
    ∀ b k, Run (Guarded (fun k op k' => VmOp.Step k op k') fun _ op => op.Paging)
      Family.grown (Family.trip b) k → b = 7 := by
  obtain ⟨m₀, hm₀, -, hall⟩ := paging_transparent PageArray.reliable Family.grown_consistent fun s _ => ⟨_, rfl⟩
  refine ⟨m₀, hm₀, ?_, fun b k hrun => (hall _ k hrun).2 (Family.trip b).dropLast [] 0 5 b rfl⟩
  have hexec : ((Family.trip 7).foldlM (fun k op => VmOp.exec k op) Family.grown).any fun _ => true := by
    decide +kernel
  obtain ⟨k, hrun, -⟩ := Run.of_exec hexec fun _ _ _ => VmOp.step_of_exec
  exact ⟨k, hrun.guarded (by simp [Family.trip, VmOp.Paging])⟩

end Xv6
