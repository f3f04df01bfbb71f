import Mathlib.Data.Set.Function
import Xv6.Lib.Transition
import Xv6.Vm.ForkSpec

/-!
# Every user page is in one place

The processes run: they load and store, fault, grow, fork and exit, and any of these calls may evict
pages of any process. A step is one of these calls run to its end. From a consistent kernel every call
leads to a consistent kernel or panics, and none of the panics that wrong bookkeeping would lead to
occurs. Everything else is read off consistency: pages of memory and of swap are in bijection with the
entries of the page tables, and the size of a process bounds its address space.
-/

namespace Xv6

open TraceM Function Tables Kernel Transition

/-! ## Steps -/

/-- A call into the kernel, made by the process it names first; `freeproc` is called by `kwait`. -/
inductive KernelCall where
  | vmfault (p : ProcId) (va : Nat)
  | clockEvict (p : ProcId)
  | growproc (p : ProcId) (n : Int32)
  | sysSbrk (p : ProcId) (n : Int32) (eager : Bool)
  | kfork (p : ProcId)
  | freeproc (p : ProcId)

/-- What happens in the machine: an access by user code to an address with a valid entry, a call into
the kernel, or a change of the state of a process by the scheduler, `sleep`, `wakeup` or `kexit`. -/
inductive VmOp where
  | load (p : ProcId) (va : Nat) (b : UInt8)
  | store (p : ProcId) (va : Nat) (b : UInt8)
  | call (c : KernelCall)
  | schedule (p : ProcId) (st : ProcState)

section Steps

variable {D : Type} [SwapStore D]

def KernelCall.run : KernelCall → KM D Unit
  | vmfault p va => do let _ ← Xv6.vmfault p ((← get).proc p).pagetable va
  | clockEvict p => do let _ ← Xv6.clockEvict p
  | growproc p n => do let _ ← Xv6.growproc p n
  | sysSbrk p n eager => do let _ ← Xv6.sysSbrk p n eager
  | kfork p => do let _ ← Xv6.kfork p
  | freeproc p => Xv6.freeproc p

omit [SwapStore D] in
/-- A process in use makes the call; a process that is freed is a zombie. -/
def KernelCall.Allowed (k : Kernel D) : KernelCall → Prop
  | vmfault p _ => (k.proc p).state ≠ .unused
  | clockEvict _ => True
  | growproc p _ => (k.proc p).state ≠ .unused
  | sysSbrk p _ _ => (k.proc p).state ≠ .unused
  | kfork p => (k.proc p).state ≠ .unused
  | freeproc p => (k.proc p).state = .zombie

/-- The entry that lets user code with the right `perm` at the address through. -/
def Kernel.Access (k : Kernel D) (p : ProcId) (va perm : Nat) (e : Pte) : Prop :=
  (k.proc p).state ≠ .unused ∧ va < (k.proc p).sz ∧
    k.tables.entry (k.proc p).pagetable (vpn va) = some e ∧ e.getLsbD pteV = true ∧
    e.getLsbD pteU = true ∧ e.getLsbD perm = true

/-- The kernel after a store: the byte is in memory, and the hardware notes the access. -/
def Kernel.stored (k : Kernel D) (p : ProcId) (va : Nat) (b : UInt8) (e : Pte) : Kernel D :=
  (k.setMem (pte2pa e) (update (k.mem (pte2pa e)) (pageOffset va) b)).setEntry
    (k.proc p).pagetable (vpn va) (e ||| bit pteA ||| bit pteD)

def VmOp.Step (k : Kernel D) : VmOp → Kernel D → Prop
  | load p va b, k' => ∃ e, k.Access p va pteR e ∧ b = k.mem (pte2pa e) (pageOffset va) ∧
      k' = k.setEntry (k.proc p).pagetable (vpn va) (e ||| bit pteA)
  | store p va b, k' => ∃ e, k.Access p va pteW e ∧ k' = k.stored p va b e
  | call c, k' => c.Allowed k ∧ ∃ l, c.run k = .ok ((), k', l)
  | schedule p st, k' => (k.proc p).state ≠ .unused ∧ st ≠ .unused ∧
      k' = k.updProc p fun q => { q with state := st }

end Steps

/-! ## What a step preserves -/

section Preservation

variable {D : Type} {k k' k₀ : Kernel D} {r : Nat} {v : Vpn} {e e' : Pte} {p : ProcId} {va : Nat}

/-- Setting flags in a valid entry of a user page. -/
theorem Consistent.retouch (h : Consistent k) (he : k.tables.entry r v = some e) (hv : ¬ Special v)
    (hV : e.getLsbD pteV = true) (hV' : e'.getLsbD pteV = true) (hS : e'.getLsbD pteS = e.getLsbD pteS)
    (hup : upper e' = upper e) : Consistent (k.setEntry r v e') := by
  obtain ⟨g, hready⟩ := h.ready
  have hcalm : Calm none (fun r' w => r' = r ∧ w = v) k (k.setEntry r v e') :=
    .of_setEntry (fun _ => rfl) rfl rfl hv ⟨rfl, rfl⟩ fun _ hx => by cases hx
  refine h.calm ⟨g, hready.inv.retouch he hV hV' hS hup, hready.lock⟩ hcalm ?_
  rintro q w ⟨rfl, rfl⟩
  by_contra hge
  have h0 := (h.spaces.each q).above (h.spaces.ne_zero he) w hv (Nat.not_lt.mp hge) e he
  rw [h0] at hV
  simp at hV

/-- An address below the size of a process is in a user page. -/
theorem Consistent.not_special (h : Consistent k) (hva : va < (k.proc p).sz) : ¬ Special (vpn va) := by
  rw [← vpn_pgrounddown]
  refine not_special_of_lt (pgrounddown_aligned va) (lt_of_le_of_lt (pgrounddown_le va) ?_)
  exact lt_of_lt_of_le hva (h.spaces.each p).size

/-- A load by user code. -/
theorem Consistent.loaded (h : Consistent k) (ha : k.Access p va pteR e) :
    Consistent (k.setEntry (k.proc p).pagetable (vpn va) (e ||| bit pteA)) := by
  obtain ⟨-, hva, he, hV, -, -⟩ := ha
  refine h.retouch he (h.not_special hva) hV ?_ ?_ ?_
  · rw [getLsbD_or_bit (by decide) (by decide)]
    exact hV
  · exact getLsbD_or_bit (by decide) (by decide)
  · exact upper_or_bit e (by decide)

/-- A store by user code. -/
theorem Consistent.stored (h : Consistent k) {b : UInt8} (ha : k.Access p va pteW e) :
    Consistent (k.stored p va b e) := by
  obtain ⟨-, hva, he, hV, -, -⟩ := ha
  refine (h.setMem _ _).retouch he (h.not_special hva) hV ?_ ?_ ?_
  · rw [getLsbD_or_bit (by decide) (by decide), getLsbD_or_bit (by decide) (by decide)]
    exact hV
  · rw [getLsbD_or_bit (by decide) (by decide), getLsbD_or_bit (by decide) (by decide)]
  · rw [upper_or_bit _ (by decide), upper_or_bit _ (by decide)]

theorem addr_vpn_lt {sz : Nat} (hva : va < sz) (hsz : sz ≤ trapframe) : (vpn va).addr < pgroundup sz := by
  have hlt : pgrounddown va < maxva :=
    lt_of_le_of_lt (pgrounddown_le va) (lt_of_lt_of_le hva (hsz.trans (by decide)))
  rw [← vpn_pgrounddown, addr_vpn (pgrounddown_aligned va) hlt]
  exact lt_of_le_of_lt (pgrounddown_le va) (lt_of_lt_of_le hva (le_pgroundup sz))

variable [SwapStore D]

/-- **Every call** leads from a consistent kernel to a consistent one, or panics for another reason than
wrong bookkeeping. -/
theorem KernelCall.run_spec (h : Consistent k) {c : KernelCall} (hc : c.Allowed k) :
    Sat (watch .plain) c.run (fun _ k' => Consistent k') k := by
  obtain ⟨g, hready⟩ := h.ready
  cases c with
  | vmfault p va =>
    have hspace := h.spaces.each p
    have hpt := h.live p hc
    apply Sat.seq_get
    apply Sat.seq
    by_cases hva : maxva ≤ va ∨ (k.proc p).sz ≤ va
    · unfold Xv6.vmfault
      apply Sat.seq_get
      rw [if_pos hva]
      exact Sat.ret (Sat.ret h)
    · apply (vmfault_spec (R := fun _ _ _ => True) va hready (hspace.table hpt) hspace.size).mono
      intro pa k₁ hfault
      refine Sat.ret (h.calm hfault.ready hfault.calm ?_)
      rintro q v ⟨hq, rfl⟩
      have hqp : q = p := h.spaces.inj q p (by rw [hq]; exact hpt) hq
      rw [hqp]
      exact addr_vpn_lt (by omega) hspace.size
  | clockEvict p =>
    apply Sat.seq
    apply (clockEvict_spec (R := fun _ _ _ => True) p hready).mono
    rintro pa k₁ ⟨⟨g₁, hready₁, hquiet, -, -⟩, -⟩
    exact Sat.ret (h.calm ⟨g₁, hready₁⟩ (hquiet.calm (X := fun _ _ => False)) fun _ _ => False.elim)
  | growproc p n =>
    apply Sat.seq
    exact (growproc_spec h hc n).mono fun _ _ h₁ => Sat.ret h₁
  | sysSbrk p n eager =>
    apply Sat.seq
    exact (sysSbrk_spec h hc n eager).mono fun _ _ h₁ => Sat.ret h₁
  | kfork p =>
    apply Sat.seq
    exact (kfork_spec h hc).mono fun _ _ h₁ => Sat.ret h₁
  | freeproc p =>
    exact (freeproc_spec (watch_allowed id) hready h.spaces).mono fun _ _ h₁ => h₁.consistent h

/-- Outside of `kexec` no eviction is judged broken, so a panic is never a wild one. -/
theorem sat_plain {α : Type} {x : KM D α} {Q : α → Kernel D → Prop} (h : Sat (watch .plain) x Q k) :
    (∀ err, x k = .error err → ¬ err.Wild) ∧ ∀ a k' l, x k = .ok (a, k', l) → Q a k' := by
  unfold Sat at h
  constructor
  · intro err herr
    rw [herr] at h
    exact h.1 rfl
  · intro a k' l hok
    rw [hok] at h
    rcases h with ⟨w, -, hx, -⟩ | ⟨-, hQ⟩
    · exact absurd rfl hx.1
    · exact hQ

theorem lenient_of_plain {α : Type} {x : KM D α} {Q : α → Kernel D → Prop} (h : Sat (watch .plain) x Q k) :
    Sat .lenient x Q k := by
  have hok := (sat_plain h).2
  unfold Sat
  cases hx : x k with
  | error e => trivial
  | ok r => exact Or.inr ⟨fun _ _ => trivial, hok _ _ _ hx⟩

theorem sat_plain_after {α : Type} {x : KM D α} {Q : α → Kernel D → Prop} (h : Sat (watch .plain) x Q k)
    {a : α} (hx : x.result k = some a) : Q a (x.after k) := by
  obtain ⟨l, hrun⟩ := run_of_result hx
  exact (sat_plain h).2 a _ l hrun

theorem Consistent.after (h : Consistent k) {c : KernelCall} (hc : c.Allowed k)
    (hx : c.run.result k = some ()) : Consistent (c.run.after k) :=
  sat_plain_after (KernelCall.run_spec h hc) hx

/-- Every call, load and store keeps the kernel consistent. -/
theorem Consistent.step (h : Consistent k) {op : VmOp} (hstep : op.Step k k') : Consistent k' := by
  cases op with
  | load p va b =>
    obtain ⟨e, ha, -, rfl⟩ := hstep
    exact h.loaded ha
  | store p va b =>
    obtain ⟨e, ha, rfl⟩ := hstep
    exact h.stored ha
  | call c =>
    obtain ⟨hc, l, hok⟩ := hstep
    exact (sat_plain (KernelCall.run_spec h hc)).2 _ _ _ hok
  | schedule p st =>
    obtain ⟨hp, hst, rfl⟩ := hstep
    have hspace := h.spaces.each p
    exact h.updProc (fun _ => rfl) (fun _ => rfl) hp
      ⟨hspace.size, hspace.table, hspace.above, hspace.special, fun hu => absurd hu hst⟩

theorem Consistent.run (h₀ : Consistent k₀) {ops : List VmOp}
    (hrun : Run (fun k op k' => VmOp.Step k op k') k₀ ops k) : Consistent k :=
  hrun.invariant h₀ fun _ _ _ h hstep => h.step hstep

end Preservation

/-! ## The start -/

section Start

variable {D : Type} {k k' : Kernel D}

/-- The kernel after boot is consistent, whatever pages `kinit` found free. -/
theorem Consistent.boot {image : Image} {free : List Nat} {d : D} (hnodup : free.Nodup)
    (hfree : ∀ pa ∈ free, pa % pgsize = 0 ∧ image.kend ≤ pa ∧ pa < phystop) :
    Consistent (Kernel.boot image free d) := by
  have hentry : ∀ r v e, (Kernel.boot image free d).tables.entry r v ≠ some e := fun _ _ _ h => nomatch h
  refine ⟨⟨fun pa => if pa ∈ free then .free else .idle, ⟨⟨?_, ?_, hnodup⟩, ⟨?_, ?_, ?_⟩, ⟨?_⟩, ?_, ?_, ?_⟩,
    rfl⟩, ⟨rfl, ?_, ?_, ?_⟩, fun p hp => absurd rfl hp⟩
  · intro pa hpa
    by_cases hmem : pa ∈ free
    · exact hfree pa hmem
    · exact absurd (if_neg hmem) hpa
  · exact fun pa hpa => if_pos hpa
  · exact fun r hr => nomatch hr
  · exact fun r i m hm => nomatch hm
  · exact fun r i j l hl => nomatch hl
  · exact fun p hp => absurd rfl hp
  · exact ⟨fun he => absurd he (hentry _ _ _), fun he => absurd he (hentry _ _ _),
      fun he => absurd he (hentry _ _ _), fun he => absurd he (hentry _ _ _),
      fun he => absurd he (hentry _ _ _), fun s hs => nomatch hs⟩
  · refine ⟨fun i hi => (nomatch hi), fun i j hi => (nomatch hi), fun _ _ => rfl, ?_,
      fun he => absurd he (hentry _ _ _)⟩
    show (0 : Int) = _
    rw [Finset.filter_false_of_mem fun i _ hi => nomatch hi]
    rfl
  · exact fun _ _ hx => nomatch hx
  · exact fun p => ⟨Nat.zero_le _, fun h => absurd rfl h, fun h => absurd rfl h, fun h => absurd rfl h,
      fun _ => ⟨rfl, rfl, rfl⟩⟩
  · exact fun r hr => nomatch hr
  · exact fun p q hp => absurd rfl hp

variable [SwapStore D]

/-- So is the kernel with the first process. -/
theorem Consistent.userinit (h : Consistent k) {me : ProcId} {root : Nat} {l : List (Eviction D)}
    (hok : userinit me root k = .ok ((), k', l)) : Consistent k' := by
  obtain ⟨g, hready⟩ := h.ready
  have hspec : Sat (watch .plain) (allocproc me) _ k := allocproc_spec hready h.spaces
  obtain ⟨-, hclaim⟩ := sat_plain hspec
  unfold Xv6.userinit at hok
  cases halloc : allocproc me k with
  | error err =>
    rw [bind_of_error halloc] at hok
    cases hok
  | ok res =>
    obtain ⟨o, k₁, l₁⟩ := res
    cases o with
    | none =>
      rw [bind_run_error halloc rfl] at hok
      cases hok
    | some p =>
      have hclaimed : Claimed p k k₁ := hclaim _ _ _ halloc
      rw [bind_run halloc rfl] at hok
      have hk' : k₁.updProc p (fun q => { q with cwd := root, state := .runnable }) = k' :=
        congrArg (fun x => x.2.1) (Except.ok.inj hok)
      rw [← hk']
      have hspace := hclaimed.spaces.each p
      refine (hclaimed.consistent h).updProc (fun _ => rfl) (fun _ => rfl) ?_
        ⟨hspace.size, hspace.table, hspace.above, hspace.special, fun hu => ProcState.noConfusion hu⟩
      rw [hclaimed.used]
      exact ProcState.noConfusion

end Start

/-! ## One place for every page -/

section Places

variable {D : Type} {k k₀ : Kernel D}

/-- The leaf entry of a page, `0` where there is none. -/
def Kernel.pte (k : Kernel D) (p : ProcId) (v : Vpn) : Pte :=
  (k.tables.entry (k.proc p).pagetable v).getD 0

/-- The user pages in memory. -/
def Kernel.residents (k : Kernel D) : Set (ProcId × Vpn) :=
  {x | ¬ Special x.2 ∧ (k.pte x.1 x.2).getLsbD pteV = true}

/-- The pages with `PTE_S` set and `PTE_V` clear. -/
def Kernel.swappedPages (k : Kernel D) : Set (ProcId × Vpn) :=
  {x | (k.pte x.1 x.2).getLsbD pteV = false ∧ (k.pte x.1 x.2).getLsbD pteS = true}

/-- Used frame-table entries and valid user entries of the page tables are in bijection, and so are used
swap slots and swapped entries. -/
structure PlacedOnce (k : Kernel D) : Prop where
  frames : Set.BijOn (fun i => ((k.frametable i).proc, vpn (k.frametable i).va))
    {i | (k.frametable i).used = true} ((fun x => (some x.1, x.2)) '' k.residents)
  mapped : ∀ i p, (k.frametable i).used = true → (k.frametable i).proc = some p →
    (k.frametable i).va % pgsize = 0 ∧ pte2pa (k.pte p (vpn (k.frametable i).va)) = (k.frametable i).pa
  distinct : Set.InjOn (fun i => (k.frametable i).pa) {i | (k.frametable i).used = true}
  unlisted : ∀ i, (k.frametable i).used = true → (k.frametable i).pa ∉ k.freelist
  slots : Set.BijOn (fun x => swapIdx (k.pte x.1 x.2)) k.swappedPages
    ((fun s : Fin maxSwap => (s : Int)) '' {s | (k.swaptable s).used = true})
  /-- Pages beyond the size are unmapped and not swapped out. -/
  beyond : ∀ p v, ¬ Special v → pgroundup (k.proc p).sz ≤ v.addr → k.pte p v = 0

theorem Kernel.pte_of_entry {p : ProcId} {v : Vpn} {e : Pte}
    (h : k.tables.entry (k.proc p).pagetable v = some e) : k.pte p v = e := by
  unfold Kernel.pte
  rw [h, Option.getD_some]

/-- An entry with a flag is there. -/
theorem Kernel.entry_of_pte {p : ProcId} {v : Vpn} {n : Nat} (h : (k.pte p v).getLsbD n = true) :
    k.tables.entry (k.proc p).pagetable v = some (k.pte p v) := by
  unfold Kernel.pte at *
  cases he : k.tables.entry (k.proc p).pagetable v with
  | none =>
    rw [he] at h
    simp at h
  | some e => rfl

/-- A process with an entry is the only one with its table. -/
theorem Consistent.owner_eq (h : Consistent k) {p q : ProcId} {v : Vpn} {e : Pte}
    (he : k.tables.entry (k.proc p).pagetable v = some e)
    (hq : (k.proc q).pagetable = (k.proc p).pagetable) : q = p := by
  rw [← hq] at he
  exact h.spaces.inj q p (h.spaces.ne_zero he) hq

/-- What a used entry of the frame table says. -/
theorem Consistent.frame_used (h : Consistent k) {i : Fin maxFrames} (hi : (k.frametable i).used = true) :
    ∃ p, (k.frametable i).proc = some p ∧ (k.frametable i).va % pgsize = 0 ∧
      ¬ Special (vpn (k.frametable i).va) ∧
      (k.pte p (vpn (k.frametable i).va)).getLsbD pteV = true ∧
      pte2pa (k.pte p (vpn (k.frametable i).va)) = (k.frametable i).pa := by
  obtain ⟨g, hready⟩ := h.ready
  obtain ⟨p, r, e, hp, rfl | hx, hal, hlt, he, hV, hpa⟩ := hready.inv.frames.used i hi
  · rw [← pte_of_entry he] at hV hpa
    exact ⟨p, hp, hal, not_special_of_lt hal hlt, hV, hpa⟩
  · cases hx

/-- Frames in use stand for resident pages, one to one. -/
theorem Consistent.frames_bijOn (h : Consistent k) :
    Set.BijOn (fun i => ((k.frametable i).proc, vpn (k.frametable i).va))
      {i | (k.frametable i).used = true} ((fun x => (some x.1, x.2)) '' k.residents) := by
  obtain ⟨g, hready⟩ := h.ready
  refine ⟨?_, ?_, ?_⟩
  · intro i hi
    obtain ⟨p, hp, -, hv, hV, -⟩ := h.frame_used hi
    exact ⟨(p, vpn (k.frametable i).va), ⟨hv, hV⟩, Prod.ext hp.symm rfl⟩
  · intro i hi j hj heq
    obtain ⟨p, hp, -, -, -, hpa⟩ := h.frame_used hi
    obtain ⟨q, hq, -, -, -, hpa'⟩ := h.frame_used hj
    obtain ⟨h₁, h₂⟩ := Prod.mk.inj heq
    rw [hp, hq] at h₁
    obtain rfl := Option.some.inj h₁
    exact hready.inv.frames.inj i j hi hj (by rw [← hpa, ← hpa', h₂])
  · rintro _ ⟨⟨p, v⟩, ⟨hv, hV⟩, rfl⟩
    have he := entry_of_pte hV
    obtain ⟨i, hi, hpa⟩ := hready.inv.frames.covered he hv hV
    obtain ⟨q, hq, -, hv', hV', hpa'⟩ := h.frame_used hi
    obtain ⟨hr, hvpn⟩ := hready.inv.pages.frame_injective he hv hV (entry_of_pte hV') hv' hV'
      (hpa'.trans hpa)
    obtain rfl := h.owner_eq he hr
    exact ⟨i, hi, Prod.ext hq hvpn⟩

/-- Slots in use stand for pages in swap, one to one. -/
theorem Consistent.slots_bijOn (h : Consistent k) :
    Set.BijOn (fun x => swapIdx (k.pte x.1 x.2)) k.swappedPages
      ((fun s : Fin maxSwap => (s : Int)) '' {s | (k.swaptable s).used = true}) := by
  obtain ⟨g, hready⟩ := h.ready
  have hpages := hready.inv.pages
  refine ⟨?_, ?_, ?_⟩
  · rintro ⟨p, v⟩ ⟨hV, hS⟩
    obtain ⟨s, hs, hsu, -⟩ := hpages.swapped (entry_of_pte hS) hV hS
    exact ⟨s, hsu, hs.symm⟩
  · rintro ⟨p, v⟩ ⟨hV, hS⟩ ⟨q, w⟩ ⟨hV', hS'⟩ heq
    have he := entry_of_pte hS
    obtain ⟨s, hs, -, hpt, hva⟩ := hpages.swapped he hV hS
    obtain ⟨t, ht, -, hpt', hva'⟩ := hpages.swapped (entry_of_pte hS') hV' hS'
    have hst : (s : Int) = t := (hs.symm.trans heq).trans ht
    obtain rfl : s = t := Fin.ext (by exact_mod_cast hst)
    -- the slot names the table and the page of the entry
    obtain rfl := h.owner_eq he (hpt'.symm.trans hpt)
    exact Prod.ext rfl (Vpn.addr_injective (hva.symm.trans hva'))
  · rintro _ ⟨s, hsu, rfl⟩
    obtain ⟨v, e, -, he, hV, hS, hidx⟩ := hpages.slot s hsu
    obtain ⟨p, hp⟩ := h.spaces.owner _ (Option.isSome_iff_exists.mpr (isSome_of_entry he))
    rw [← hp] at he
    have hpte := pte_of_entry he
    subst hpte
    exact ⟨(p, v), ⟨hV, hS⟩, hidx⟩

/-- Every page is in one place. -/
theorem Consistent.placedOnce (h : Consistent k) : PlacedOnce k := by
  obtain ⟨g, hready⟩ := h.ready
  refine ⟨h.frames_bijOn, ?_, fun i hi j hj heq => hready.inv.frames.inj i j hi hj heq, ?_,
    h.slots_bijOn, ?_⟩
  · intro i p hi hp
    obtain ⟨q, hq, hal, -, -, hpa⟩ := h.frame_used hi
    rw [hp] at hq
    obtain rfl := Option.some.inj hq
    exact ⟨hal, hpa⟩
  · intro i hi hmem
    obtain ⟨p, hp, -, hv, hV, hpa⟩ := h.frame_used hi
    have hown := (hready.inv.pages.resident (entry_of_pte hV) hv hV).1
    rw [hpa, hready.inv.free.free _ hmem] at hown
    cases hown
  · intro p v hv hle
    unfold Kernel.pte
    cases he : k.tables.entry (k.proc p).pagetable v with
    | none => rfl
    | some e => exact (h.spaces.each p).above (h.spaces.ne_zero he) v hv hle e he

/-- **What `uvmunmap` may expect** holds of the pages of a process. -/
theorem Consistent.unmappable (h : Consistent k) {p : ProcId} (hp : (k.proc p).state ≠ .unused) {n : Nat}
    (hn : n * pgsize ≤ (k.proc p).sz) : Unmappable k (k.proc p).pagetable (InRange 0 n) := by
  obtain ⟨g, hready⟩ := h.ready
  have hpages := hready.inv.pages
  have huser : ∀ {v}, InRange 0 n v → ¬ Special v := by
    intro v hv
    rw [← vpn_addr v]
    exact h.not_special (p := p) (by have := hv.2; omega)
  refine ⟨(h.spaces.each p).table (h.live p hp), hready.lock, hready.inv.frames.inj, ?_, ?_, ?_, ?_,
    fun _ he hV hS => hpages.zero he hV hS⟩
  · intro v e hv he hV
    have hown := (hpages.resident he (huser hv) hV).1
    obtain ⟨hal, hlow, hhigh⟩ := hready.inv.free.frame (pte2pa e) (by rw [hown]; simp)
    refine ⟨⟨hal, hlow, hhigh⟩, fun hmem => ?_⟩
    rw [hready.inv.free.free _ hmem] at hown
    cases hown
  · intro v w e e' hv hw he he' hV hV' hpa
    exact (hpages.frame_injective he' (huser hw) hV' he (huser hv) hV hpa).2
  · intro v e hv he hV hS
    obtain ⟨s, hs, hused, -⟩ := hpages.swapped he hV hS
    exact ⟨s, ⟨hV, hS, hs⟩, hused⟩
  · intro v w e e' s hv hw he he' hs hs'
    obtain ⟨t, ht, -, -, hva⟩ := hpages.swapped he hs.1 hs.2.1
    obtain ⟨t', ht', -, -, hva'⟩ := hpages.swapped he' hs'.1 hs'.2.1
    have hslot : ∀ {x : Fin maxSwap}, (s : Int) = x → s = x := fun h => Fin.ext (by exact_mod_cast h)
    rw [← hslot (hs.2.2.symm.trans ht)] at hva
    rw [← hslot (hs'.2.2.symm.trans ht')] at hva'
    exact Vpn.addr_injective (hva.symm.trans hva')

variable [SwapStore D]

/-- **Every user page is in one place.** Over every run from a consistent kernel, frames and valid
entries, and slots and swapped entries, are in bijection, no mapped frame is on the free list, no page
beyond the size of its process is kept, and the next call does not panic in `swapin`. -/
theorem pages_in_one_place (h₀ : Consistent k₀) {ops : List VmOp}
    (hrun : Run (fun k op k' => VmOp.Step k op k') k₀ ops k) :
    PlacedOnce k ∧ ∀ c : KernelCall, c.Allowed k → c.run k ≠ .error .swapin := by
  have h := h₀.run hrun
  refine ⟨h.placedOnce, fun c hc herr => ?_⟩
  exact (sat_plain (KernelCall.run_spec h hc)).1 _ herr trivial

/-- **The size bounds the address space.** Over every run from a consistent kernel no size exceeds
`TRAPFRAME`, and every entry of a user page that is not zero belongs to a page below the size. So the
next call does not panic in `mappages` for a page that is mapped, whatever its arguments.
`proc_freepagetable` panics in `kfree` or not at all, and when it returns, the table is gone and every
slot in use is that of a page of another process. -/
theorem size_bounds_space (h₀ : Consistent k₀) {ops : List VmOp}
    (hrun : Run (fun k op k' => VmOp.Step k op k') k₀ ops k) (p : ProcId) :
    (k.proc p).sz ≤ trapframe ∧
      (∀ v, ¬ Special v → k.pte p v ≠ 0 → v.addr < pgroundup (k.proc p).sz) ∧
      (∀ c : KernelCall, c.Allowed k → c.run k ≠ .error .mappagesRemap) ∧
      ((k.proc p).state ≠ .unused →
        (∀ err, procFreepagetable (k.proc p).pagetable (k.proc p).sz k = .error err → err = .kfree) ∧
        ∀ k' l, procFreepagetable (k.proc p).pagetable (k.proc p).sz k = .ok ((), k', l) →
          k'.tables (k.proc p).pagetable = none ∧
          ∀ s, (k'.swaptable s).used = true → ∃ q v, q ≠ p ∧ SwappedTo (k'.pte q v) s) := by
  have h := h₀.run hrun
  refine ⟨(h.spaces.each p).size, ?_, ?_, ?_⟩
  · intro v hv hne
    by_contra hge
    exact hne (h.placedOnce.beyond p v hv (Nat.not_lt.mp hge))
  · intro c hc herr
    exact (sat_plain (KernelCall.run_spec h hc)).1 _ herr trivial
  · intro hp
    obtain ⟨g, hready⟩ := h.ready
    have hspace := h.spaces.each p
    have hpt := h.live p hp
    have hsat := procFreepagetable_spec (W := ⟨fun _ => True, fun _ => False, fun e => e = .kfree,
      fun hf => hf.elim⟩) rfl hready (hspace.table hpt) hspace.size (hspace.above hpt)
    unfold Sat at hsat
    constructor
    · intro err herr
      rw [herr] at hsat
      exact hsat
    · intro k' l hok
      rw [hok] at hsat
      obtain ⟨⟨g', hready'⟩, happart, hgone, -⟩ := (hsat.resolve_left fun ⟨_, _, hf⟩ => hf).2
      refine ⟨hgone, fun s hs => ?_⟩
      obtain ⟨v, e, -, he, hV, hS, hidx⟩ := hready'.inv.pages.slot s hs
      have hr : (k'.swaptable s).pageTable ≠ (k.proc p).pagetable := by
        intro heq
        rw [heq] at he
        simp [entry, hgone] at he
      have hsome := happart.tables _ hr
      rw [Option.isSome_iff_exists.mpr (isSome_of_entry he)] at hsome
      obtain ⟨q, hq⟩ := h.spaces.owner _ hsome.symm
      rw [← hq, ← (happart.procs q).pagetable] at he
      refine ⟨q, v, ?_, ?_⟩
      · rintro rfl
        exact hr hq.symm
      · rw [pte_of_entry he]
        exact ⟨hV, hS, hidx⟩

end Places

/-! ### Runs from boot -/

section Exec

variable {D : Type} {k k' : Kernel D}

instance {p : ProcId} {va perm : Nat} {e : Pte} : Decidable (k.Access p va perm e) :=
  inferInstanceAs (Decidable (_ ∧ _))

instance KernelCall.decidableAllowed : (c : KernelCall) → Decidable (c.Allowed k)
  | .vmfault .. | .growproc .. | .sysSbrk .. | .kfork .. => inferInstanceAs (Decidable (_ ≠ _))
  | .clockEvict _ => .isTrue trivial
  | .freeproc _ => inferInstanceAs (Decidable (_ = _))

variable [SwapStore D]

/-- A step, computed. -/
def VmOp.exec (k : Kernel D) : VmOp → Option (Kernel D)
  | load p va b =>
    let e := k.pte p (vpn va)
    if k.Access p va pteR e ∧ b = k.mem (pte2pa e) (pageOffset va) then
      some (k.setEntry (k.proc p).pagetable (vpn va) (e ||| bit pteA))
    else none
  | store p va b =>
    let e := k.pte p (vpn va)
    if k.Access p va pteW e then some (k.stored p va b e) else none
  | call c => if c.Allowed k then c.run.final k else none
  | schedule p st =>
    if (k.proc p).state ≠ .unused ∧ st ≠ .unused then
      some (k.updProc p fun q => { q with state := st })
    else none

theorem VmOp.step_of_exec {op : VmOp} (h : op.exec k = some k') : op.Step k k' := by
  cases op with
  | load p va b =>
    obtain ⟨⟨ha, hb⟩, hk⟩ := Option.ite_none_right_eq_some.mp h
    exact ⟨_, ha, hb, (Option.some.inj hk).symm⟩
  | store p va b =>
    obtain ⟨ha, hk⟩ := Option.ite_none_right_eq_some.mp h
    exact ⟨_, ha, (Option.some.inj hk).symm⟩
  | call c =>
    obtain ⟨hc, hk⟩ := Option.ite_none_right_eq_some.mp h
    obtain ⟨⟨⟩, l, hrun⟩ := run_of_final hk
    exact ⟨hc, l, hrun⟩
  | schedule p st =>
    obtain ⟨⟨hp, hst⟩, hk⟩ := Option.ite_none_right_eq_some.mp h
    exact ⟨hp, hst, (Option.some.inj hk).symm⟩

end Exec

namespace Family

/-- Twenty free frames and no process. -/
def start : Kernel PageArray :=
  .boot .small ((List.range 20).map fun n => 0x80022000 + n * pgsize) ⟨fun _ => junk 0⟩

/-- The first process. -/
@[irreducible] def alone : Kernel PageArray := (userinit 0 0).after start

/-- It has two pages. -/
@[irreducible] def grown : Kernel PageArray := (KernelCall.run (.growproc 0 8192)).after alone

/-- One of them goes out to swap. -/
@[irreducible] def evicted : Kernel PageArray := (KernelCall.run (.clockEvict 0)).after grown

/-- A third one that the process asks for is not allocated yet. -/
@[irreducible] def lazyGrown : Kernel PageArray := (KernelCall.run (.sysSbrk 0 4096 false)).after evicted

theorem grown_runs : (userinit 0 0).result start = some () ∧ (alone.proc 0).state ≠ .unused ∧
    (KernelCall.run (.growproc 0 8192)).result alone = some () ∧ (grown.proc 0).state ≠ .unused := by
  decide +kernel

theorem lazyGrown_runs : (KernelCall.run (.clockEvict 0)).result grown = some () ∧
    (evicted.proc 0).state ≠ .unused ∧ (KernelCall.run (.sysSbrk 0 4096 false)).result evicted = some () ∧
    (lazyGrown.proc 0).state ≠ .unused ∧ (lazyGrown.proc 0).sz = 12288 := by
  decide +kernel

theorem alone_consistent : Consistent alone := by
  obtain ⟨l, hrun⟩ := run_of_result grown_runs.1
  unfold alone
  refine Consistent.userinit (.boot ?_ ?_) hrun
  · decide
  · decide

theorem grown_consistent : Consistent grown := by
  unfold grown
  exact alone_consistent.after (c := .growproc 0 8192) grown_runs.2.1 grown_runs.2.2.1

theorem evicted_consistent : Consistent evicted := by
  unfold evicted
  exact grown_consistent.after (c := .clockEvict 0) trivial lazyGrown_runs.1

theorem lazyGrown_consistent : Consistent lazyGrown := by
  unfold lazyGrown
  exact evicted_consistent.after (c := .sysSbrk 0 4096 false) lazyGrown_runs.2.1 lazyGrown_runs.2.2.1

/-- The process gets two pages and stores in the first; both go out to swap, the first comes back, the process
forks, and a page goes out again. -/
def ops : List VmOp :=
  [.call (.growproc 0 8192), .store 0 5 7, .call (.clockEvict 0), .call (.clockEvict 0),
    .call (.vmfault 0 5), .load 0 5 7, .call (.kfork 0), .call (.clockEvict 0)]

/-- In the end pages of both processes are in memory and one is in swap. -/
theorem ops_run : ∃ k, Run (fun k op k' => VmOp.Step k op k') alone ops k ∧ (k.proc 1).sz = 8192 ∧
    (k.swaptable 0).used = true ∧ ∀ p < 2, (k.pte p (vpn 5)).getLsbD pteV = true := by
  have hexec : (ops.foldlM (fun k op => VmOp.exec k op) alone).any (fun k => (k.proc 1).sz = 8192 ∧
      (k.swaptable 0).used = true ∧ ∀ p < 2, (k.pte p (vpn 5)).getLsbD pteV = true) := by
    decide +kernel
  obtain ⟨k, hrun, hk⟩ := Run.of_exec hexec fun _ _ _ => VmOp.step_of_exec
  exact ⟨k, hrun, of_decide_eq_true hk⟩

end Family

/-- The pages of parent and child are each in one place, in memory or in swap. -/
theorem pages_in_one_place_family : ∃ k, Run (fun k op k' => VmOp.Step k op k') Family.alone Family.ops k ∧
    (k.swaptable 0).used = true ∧ PlacedOnce k := by
  obtain ⟨k, hrun, -, hswap, -⟩ := Family.ops_run
  exact ⟨k, hrun, hswap, (pages_in_one_place Family.alone_consistent hrun).1⟩

/-- The child of the fork maps nothing above its size. -/
theorem size_bounds_space_family : ∃ k, Run (fun k op k' => VmOp.Step k op k') Family.alone Family.ops k ∧
    (k.proc 1).sz = 8192 ∧ ∀ v, ¬ Special v → k.pte 1 v ≠ 0 → v.addr < 8192 := by
  obtain ⟨k, hrun, hsz, -⟩ := Family.ops_run
  have hbounds := (size_bounds_space Family.alone_consistent hrun 1).2.1
  rw [hsz] at hbounds
  exact ⟨k, hrun, hsz, hbounds⟩

/-- The first two pages of `Family.lazyGrown`, one in swap and one in memory, are unmapped without
trouble. -/
theorem uvmunmap_iff_family : ∃ l k', uvmunmap (Family.lazyGrown.proc 0).pagetable 0 2 true Family.lazyGrown =
      .ok ((), k', []) ∧ Unmapped Family.lazyGrown (Family.lazyGrown.proc 0).pagetable (InRange 0 2) l k' := by
  obtain ⟨-, -, -, hused, hsz⟩ := Family.lazyGrown_runs
  have hentries : ∀ i : Fin 2, (Family.lazyGrown.tables.entry (Family.lazyGrown.proc 0).pagetable
      (vpn (i * pgsize))).all fun e => e.getLsbD pteV || e.getLsbD pteS := by decide +kernel
  refine (uvmunmap_iff (by decide) (by decide) (Family.lazyGrown_consistent.unmappable hused ?_)).mpr ?_
  · rw [hsz]
    decide
  · intro v hv e he
    have hi := hentries ⟨v.addr / pgsize, by have := hv.2; unfold pgsize at *; omega⟩
    rw [Nat.div_mul_cancel (Nat.dvd_of_mod_eq_zero v.addr_aligned), vpn_addr, he] at hi
    simpa using hi

/-- **The panic.** The range of all three pages is as `uvmunmap` may expect it, the last page was never
allocated, and `uvmunmap` panics in `kfree`. -/
theorem uvmunmap_panics_on_lazy :
    Unmappable Family.lazyGrown (Family.lazyGrown.proc 0).pagetable (InRange 0 3) ∧
      uvmunmap (Family.lazyGrown.proc 0).pagetable 0 3 true Family.lazyGrown = .error .kfree := by
  obtain ⟨-, -, -, hused, hsz⟩ := Family.lazyGrown_runs
  refine ⟨Family.lazyGrown_consistent.unmappable hused ?_, by decide +kernel⟩
  rw [hsz]
  decide

end Xv6
