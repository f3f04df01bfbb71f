import Xv6.Vm.CopySpec
import Xv6.Vm.CopyStr

/-!
# Copies between the kernel and user memory

`copyout` and `copyin` go through a range page by page. Each page may be in memory, in swap or not yet
allocated, and the fault that fetches it may evict pages that were copied before. In terms of the flat
memory that a kernel describes, `copyout` writes the range and `copyin` reads it.
-/

namespace Xv6

open TraceM

/-! ## Ranges of a flat memory -/

/-- `bytes` written at `va` of process `p`. -/
def Flat.write (m : Flat) (p : ProcId) (va : Nat) (bytes : List UInt8) : Flat := fun q a =>
  if h : q = p ∧ va ≤ a ∧ a - va < bytes.length then bytes.get ⟨a - va, h.2.2⟩ else m q a

/-- The `n` bytes from `va` on of process `p`. -/
def Flat.read (m : Flat) (p : ProcId) (va n : Nat) : List UInt8 := (List.range n).map fun i => m p (va + i)

section Ranges

variable {m : Flat} {p q : ProcId} {va a : Nat} {bytes : List UInt8} {v : Vpn}

theorem Flat.write_in (h₁ : va ≤ a) (h₂ : a - va < bytes.length) :
    m.write p va bytes p a = bytes.get ⟨a - va, h₂⟩ := dif_pos ⟨rfl, h₁, h₂⟩

theorem Flat.write_out (h : ¬ (q = p ∧ va ≤ a ∧ a < va + bytes.length)) : m.write p va bytes q a = m q a := by
  refine dif_neg fun hf => h ⟨hf.1, hf.2.1, ?_⟩
  omega

theorem Flat.write_nil (m : Flat) (p : ProcId) (va : Nat) : m.write p va [] = m := by
  funext q a
  exact Flat.write_out (by simp)

/-- Two writes in a row are one. -/
theorem Flat.write_append (m : Flat) (p : ProcId) (va : Nat) (xs ys : List UInt8) :
    (m.write p va xs).write p (va + xs.length) ys = m.write p va (xs ++ ys) := by
  funext q a
  by_cases hall : q = p ∧ va ≤ a ∧ a < va + (xs ++ ys).length
  · obtain ⟨rfl, h₁, h₂⟩ := hall
    rw [List.length_append] at h₂
    have hin : a - va < (xs ++ ys).length := by
      rw [List.length_append]
      omega
    rw [Flat.write_in h₁ hin]
    by_cases hx : a < va + xs.length
    · rw [Flat.write_out (by omega), Flat.write_in h₁ (by omega)]
      simp only [List.get_eq_getElem]
      rw [List.getElem_append_left]
    · rw [Flat.write_in (by omega) (by omega)]
      simp only [List.get_eq_getElem]
      rw [List.getElem_append_right (by omega)]
      congr 1
      omega
  · rw [Flat.write_out hall]
    rw [List.length_append] at hall
    rw [Flat.write_out fun hf => hall ⟨hf.1, by omega, by omega⟩,
      Flat.write_out fun hf => hall ⟨hf.1, by omega, by omega⟩]

/-- Bytes are read back as they were written. -/
theorem Flat.read_write (m : Flat) (p : ProcId) (va : Nat) (bytes : List UInt8) :
    (m.write p va bytes).read p va bytes.length = bytes := by
  apply List.ext_get
  · simp [Flat.read]
  · intro i h₁ h₂
    simp only [Flat.read, List.get_eq_getElem, List.getElem_map, List.getElem_range]
    rw [Flat.write_in (Nat.le_add_right va i) (by omega)]
    simp

theorem Flat.read_add (m : Flat) (p : ProcId) (va i j : Nat) :
    m.read p va (i + j) = m.read p va i ++ m.read p (va + i) j := by
  unfold Flat.read
  rw [List.range_add, List.map_append, List.map_map]
  congr 1
  exact List.map_congr_left fun n _ => by simp [Nat.add_assoc]

variable {off : Nat}

/-- A write inside one page, seen in that page. -/
theorem Flat.page_write (h : va = v.addr + off) :
    (m.write p va bytes).page p v = writeBytes (m.page p v) off bytes := by
  subst h
  funext o
  unfold Flat.page writeBytes
  by_cases ho : off ≤ o.val ∧ o.val - off < bytes.length
  · rw [dif_pos ho, Flat.write_in (by omega) (by omega)]
    congr 2
    omega
  · rw [dif_neg ho, Flat.write_out (by omega)]

/-- A write inside one page, seen in another. -/
theorem Flat.page_write_other (h : va = v.addr + off) (hfit : off + bytes.length ≤ pgsize) {w : Vpn}
    (hne : ¬ (q = p ∧ w = v)) : (m.write p va bytes).page q w = m.page q w := by
  funext o
  unfold Flat.page
  refine Flat.write_out ?_
  rintro ⟨rfl, h₁, h₂⟩
  apply hne
  refine ⟨rfl, Vpn.addr_injective ?_⟩
  have hv := v.addr_aligned
  have hw := w.addr_aligned
  have ho := o.isLt
  unfold pgsize at *
  omega

theorem readBytes_page {n : Nat} (h : va = v.addr + off) (hfit : off + n ≤ pgsize) :
    readBytes (m.page p v) off n = m.read p va n := by
  subst h
  unfold readBytes Flat.read Flat.page
  refine List.map_congr_left fun i hi => ?_
  have hi' := List.mem_range.mp hi
  have hoff : (pageOffset (off + i)).val = off + i := Nat.mod_eq_of_lt (by omega)
  rw [hoff, Nat.add_assoc]

end Ranges

/-! ## Fetching a page -/

section Fetch

variable {D : Type} [SwapStore D] {k k' : Kernel D} {me : ProcId} {r va : Nat} {v : Vpn}

/-- How `copyout` and `copyin` get at the frame of a page. -/
def fetchUser (me : ProcId) (pt va : Nat) : KM D Nat := do
  let pa ← walkaddr pt va
  if pa = 0 then vmfault me pt va else pure pa

/-- A page fault finds the frames it needs: one for the page, with the swap device returning the page if
it is in swap, and the pages for tables if it was never allocated. -/
def Kernel.faultServed (k : Kernel D) (me : ProcId) (pt va : Nat) : Bool :=
  match getFrame me (k.updProc me Proc.countFault) with
  | .error _ => false
  | .ok (pa, k₁, _) => pa != 0 &&
    match k.tables.entry pt (vpn va) with
    | some e =>
      if e.getLsbD pteS then
        match slotOf (swapIdx e) with
        | none => false
        | some s => (SwapStore.swapInPage (k₁.caller me) (k₁.mem pa) s k₁.disk).isOk
      else ((walkAlloc me pt va).result (k₁.setMem pa (junk 0))).join.isSome
    | none => ((walkAlloc me pt va).result (k₁.setMem pa (junk 0))).join.isSome

/-- The page is in memory, or a fault on it is served. -/
def Kernel.served (k : Kernel D) (me : ProcId) (pt va : Nat) : Bool :=
  ((k.tables.entry pt (vpn va)).any fun e => e.getLsbD pteV) || k.faultServed me pt va

theorem mappages_returns {pa : Nat} {perm : Pte} {ptr : PtePtr} {k₁ : Kernel D} {l : List (Eviction D)}
    {g : Ledger} (h : Ready .plain g k) (hr : (k.tables r).isSome) (he : k.tables.Empty r (vpn va))
    (hal : va % pgsize = 0) (hwalk : walkAlloc me r va k = .ok (some ptr, k₁, l)) :
    mappages me r va pgsize pa perm k = .ok (0, k₁.setEntry r (vpn va) (mapEntry pa perm), l) := by
  obtain ⟨⟨g₁, -, hquiet⟩, hptr⟩ :=
    (sat_plain (walkAlloc_spec (R := fun _ _ _ => True) me va h hr)).2 _ _ _ hwalk
  obtain ⟨rfl, hsome⟩ := hptr ptr rfl
  obtain ⟨e, he₁⟩ := Option.isSome_iff_exists.mp hsome
  obtain rfl := hquiet.empty he e he₁
  unfold mappages
  rw [if_neg (not_not.mpr hal), if_neg (by decide), if_neg (by decide)]
  unfold mappagesLoop
  rw [← List.append_nil l]
  refine bind_run hwalk ?_
  dsimp only
  rw [bind_of_ok (deref_run he₁), if_neg (by simp)]
  rfl

theorem vmfaultLazy_returns {pa : Nat} {ptr : PtePtr} {k₁ k₂ : Kernel D} {l l₂ : List (Eviction D)}
    {g : Ledger} (h : Ready .plain g k) (hroot : (k.proc me).pagetable = r) (hr : (k.tables r).isSome)
    (hal : va % pgsize = 0) (he : k.tables.Empty r (vpn va))
    (hget : getFrame me k = .ok (pa, k₁, l)) (hpa : pa ≠ 0)
    (hwalk : walkAlloc me r va (k₁.setMem pa (junk 0)) = .ok (some ptr, k₂, l₂)) :
    Returns (vmfaultLazy me va) (fun res k' _ => res ≠ 0 ∧
      k'.tables.entry r (vpn va) = some (mapEntry res lazyPerm)) k := by
  obtain ⟨⟨g₁, hready, hquiet, -, -⟩, hactive⟩ :=
    (sat_plain (getFrame_spec (R := fun _ _ _ => True) me h)).2 _ _ _ hget
  have hpt : ((k₁.setMem pa (junk 0)).proc me).pagetable = r := (hquiet.procs me).pagetable.trans hroot
  have hset : Ready .plain g₁ (k₁.setMem pa (junk 0)) := hready.setMem (junk 0)
  have hr₁ : ((k₁.setMem pa (junk 0)).tables r).isSome := (hquiet.tables r).trans hr
  obtain ⟨⟨g₂, hready₂, hquiet₂⟩, hptr⟩ :=
    (sat_plain (walkAlloc_spec (R := fun _ _ _ => True) me va hset hr₁)).2 _ _ _ hwalk
  obtain ⟨e, he₂⟩ := Option.isSome_iff_exists.mp (hptr ptr rfl).2
  obtain ⟨i, -, hrun⟩ := frametableAlloc_spec me me va hready₂ (lt_of_le_of_lt hquiet₂.active (hactive hpa)) hpa
  unfold vmfaultLazy
  refine Returns.seq (Returns.of_ok hget ?_)
  rw [if_neg hpa]
  apply Returns.seq_update
  apply Returns.seq_get
  rw [hpt]
  refine Returns.seq (Returns.of_ok (mappages_returns hset hr₁ (hquiet.empty he) hal hwalk) ?_)
  rw [if_neg (by decide)]
  refine Returns.seq_run (hrun _ rfl rfl) (Returns.ret ⟨hpa, ?_⟩)
  show (k₂.tables.setEntry r (vpn va) (mapEntry pa lazyPerm)).entry r (vpn va) = _
  rw [Tables.entry_setEntry, if_pos ⟨rfl, rfl⟩, he₂]
  rfl

theorem vmfaultSwapped_returns {pa : Nat} {e : Pte} {s : Fin maxSwap} {page : Page} {d : D} {k₁ : Kernel D}
    {l : List (Eviction D)} {g : Ledger} (h : Ready .plain g k) (he : k.tables.entry r v = some e)
    (ha : Away e) (hget : getFrame me k = .ok (pa, k₁, l)) (hpa : pa ≠ 0) (hs : swapIdx e = s)
    (hin : SwapStore.swapInPage (k₁.caller me) (k₁.mem pa) s k₁.disk = .ok (page, d)) :
    Returns (vmfaultSwapped me ⟨r, v⟩ va) (fun res k' _ => res ≠ 0 ∧
      k'.tables.entry r v = some (swapInEntry res e)) k := by
  obtain ⟨⟨g₁, hready, hquiet, -, -⟩, hactive⟩ :=
    (sat_plain (getFrame_spec (R := fun _ _ _ => True) me h)).2 _ _ _ hget
  have he₁ := hquiet.invalid _ _ _ he ha.1
  obtain ⟨s', hs', hused, -⟩ := hready.inv.pages.swapped he₁ ha.1 ha.2
  obtain rfl : s' = s := Fin.ext (by exact_mod_cast hs'.symm.trans hs)
  obtain ⟨i, -, hrun⟩ := frametableAlloc_spec me me va hready (hactive hpa) hpa
  have hswapin : swapin me pa (swapIdx e) k₁ = .ok ((), k₁.swappedIn me pa s' page d, []) := by
    unfold swapin
    rw [slotOf_eq_some.mpr hs]
    dsimp only
    rw [get_bind_apply, if_neg (by simp [hused]), bind_of_ok (onDisk_run hin), modify_bind_apply,
      modify_bind_apply]
    exact swapFree_run hs
  unfold vmfaultSwapped
  apply Returns.seq_run (deref_run he)
  refine Returns.seq (Returns.of_ok hget ?_)
  rw [if_neg hpa]
  apply Returns.seq_run hswapin
  apply Returns.seq_run (deref_run (k := k₁.swappedIn me pa s' page d) (p := ⟨r, v⟩) he₁)
  apply Returns.seq_run (assign_run _ _)
  apply Returns.seq_update
  refine Returns.seq_run (hrun _ rfl rfl) (Returns.ret ⟨hpa, ?_⟩)
  show (k₁.tables.setEntry r v (swapInEntry pa e)).entry r v = _
  rw [Tables.entry_setEntry, if_pos ⟨rfl, rfl⟩, he₁]
  rfl

/-- The entry of page `v` after a fault that returned the frame `pa`. -/
def FaultEntry (r : Nat) (v : Vpn) (pa : Nat) (k k' : Kernel D) : Prop :=
  k'.tables.entry r v = some (mapEntry pa lazyPerm) ∨
    ∃ e, k.tables.entry r v = some e ∧ Present e ∧ k'.tables.entry r v = some (swapInEntry pa e)

/-- **A fault that is served returns a frame.** -/
theorem vmfault_returns (h : Consistent k) (hme : (k.proc me).state ≠ .unused)
    (hroot : (k.proc me).pagetable = r) (hal : va % pgsize = 0) (hva : va < (k.proc me).sz)
    (hV : ∀ e, k.tables.entry r (vpn va) = some e → e.getLsbD pteV = false)
    (hs : k.faultServed me r va = true) : Returns (vmfault me r va) (fun pa k' _ => pa ≠ 0 ∧
      FaultEntry r (vpn va) pa k k') k := by
  subst hroot
  obtain ⟨g, hready⟩ := h.ready
  have hspace := h.spaces.each me
  have hr := hspace.table (h.live me hme)
  have hmax : va < maxva := lt_of_lt_of_le hva (hspace.size.trans (by decide))
  obtain ⟨t, ht⟩ := Option.isSome_iff_exists.mp hr
  have hdown : pgrounddown va = va := by
    unfold pgrounddown pgsize at *
    omega
  have hcount : ∀ q : Proc, q.SameButStats q.countFault := fun _ => rfl
  have hready₁ := hready.updProc me hcount
  have hpt : ((k.updProc me Proc.countFault).proc me).pagetable = (k.proc me).pagetable :=
    (Kernel.updProc_sameButStats hcount me me).pagetable
  have hempty : ∀ e, k.tables.entry (k.proc me).pagetable (vpn va) = some e → e.getLsbD pteS = false →
      k.tables.Empty (k.proc me).pagetable (vpn va) := by
    intro e he hS e' he'
    rw [he] at he'
    cases he'
    exact hready.inv.pages.zero he (hV e he) hS
  unfold Kernel.faultServed at hs
  split at hs
  · cases hs
  · next pa k₁ l hget =>
      obtain ⟨hpa, hs⟩ := Bool.and_eq_true_iff.mp hs
      have hpa' : pa ≠ 0 := by simpa using hpa
      have hlazy : k.tables.Empty (k.proc me).pagetable (vpn va) →
          ((walkAlloc me (k.proc me).pagetable va).result (k₁.setMem pa (junk 0))).join.isSome = true →
          Returns (vmfaultLazy me va) (fun pa k' _ => pa ≠ 0 ∧
            FaultEntry (k.proc me).pagetable (vpn va) pa k k') (k.updProc me Proc.countFault) := by
        intro he hwalk
        obtain ⟨ptr, hptr⟩ := Option.isSome_iff_exists.mp hwalk
        obtain ⟨l₂, hrun⟩ := run_of_result (Option.join_eq_some_iff.mp hptr)
        exact (vmfaultLazy_returns hready₁ hpt hr hal he hget hpa' hrun).mono
          fun _ _ _ h => ⟨h.1, Or.inl h.2⟩
      unfold vmfault
      apply Returns.seq_get
      rw [if_neg (by omega)]
      apply Returns.seq_run (walk_run hmax ht)
      rw [hdown]
      apply Returns.seq_run (ismapped_run hmax ht)
      cases he : k.tables.entry (k.proc me).pagetable (vpn va) with
      | none =>
        rw [he] at hs
        apply Returns.seq_update
        exact hlazy (fun e hf => by rw [he] at hf; cases hf) hs
      | some e =>
        rw [he] at hs
        dsimp only at hs
        have hVe := hV e he
        simp only [Option.any_some, hVe]
        apply Returns.seq_update
        refine Returns.seq_run (deref_run (k := k.updProc me Proc.countFault) he) ?_
        cases hS : e.getLsbD pteS with
        | true =>
          rw [if_pos hS] at hs
          split at hs
          · cases hs
          · next s hslot =>
              cases hin : SwapStore.swapInPage (k₁.caller me) (k₁.mem pa) s k₁.disk with
              | error err =>
                rw [hin] at hs
                cases hs
              | ok res =>
                obtain ⟨page, d⟩ := res
                have hret : Returns (vmfaultSwapped me ⟨_, vpn va⟩ va) _ _ :=
                  vmfaultSwapped_returns hready₁ he ⟨hVe, hS⟩ hget hpa' (slotOf_eq_some.mp hslot) hin
                exact hret.mono fun _ _ _ h => ⟨h.1, Or.inr ⟨e, he, Or.inr hS, h.2⟩⟩
        | false =>
          rw [if_neg (by simp [hS])] at hs
          exact hlazy (hempty e he hS) hs

/-- A user-writable page, in memory, in swap or not yet allocated. -/
def Kernel.UserPage (k : Kernel D) (r : Nat) (v : Vpn) : Prop :=
  k.tables.Empty r v ∨
    ∃ e, k.tables.entry r v = some e ∧ Present e ∧ e.getLsbD pteW = true ∧ e.getLsbD pteU = true

omit [SwapStore D] in
theorem Kernel.userPage_iff : k.UserPage r v ↔ (k.tables.entry r v).all fun e =>
    decide (e = 0 ∨ Present e ∧ e.getLsbD pteW = true ∧ e.getLsbD pteU = true) := by
  unfold Kernel.UserPage Tables.Empty
  cases k.tables.entry r v with
  | none => simp
  | some e => simp

instance : Decidable (k.UserPage r v) := decidable_of_iff' _ Kernel.userPage_iff

/-- What happens to a consistent kernel that describes `m` while the page `v` of `me` is brought to the
frame `pa`. -/
structure Fetched (R : View D) (m : Flat) (me : ProcId) (v : Vpn) (pa : Nat) (k k' : Kernel D) : Prop where
  consistent : Consistent k'
  describes : Describes R k' m
  procs : ∀ p, (k.proc p).SameButStats (k'.proc p)
  pages : ∀ w, k.UserPage (k.proc me).pagetable w → k'.UserPage (k.proc me).pagetable w
  resident : ∃ e, k'.tables.entry (k.proc me).pagetable v = some e ∧ e.getLsbD pteV = true ∧
    e.getLsbD pteW = true ∧ pte2pa e = pa
  frame : pa ≠ 0

variable {R : View D} {m : Flat}

/-- A fault that is served brings the page into memory. -/
theorem vmfault_fetches (hR : Reliable R) (h : Consistent k) (hm : Describes R k m)
    (hme : (k.proc me).state ≠ .unused) (hal : va % pgsize = 0) (hva : va < (k.proc me).sz)
    (hpage : k.UserPage (k.proc me).pagetable (vpn va))
    (hV : ∀ e, k.tables.entry (k.proc me).pagetable (vpn va) = some e → e.getLsbD pteV = false)
    (hs : k.faultServed me (k.proc me).pagetable va = true) :
    Returns (vmfault me (k.proc me).pagetable va) (fun pa k' _ => Fetched R m me (vpn va) pa k k') k := by
  obtain ⟨g, hready⟩ := h.ready
  have hspace := h.spaces.each me
  obtain ⟨pa, k', l, hrun, hpa, hfrom⟩ := vmfault_returns h hme rfl hal hva hV hs
  have hfault := (sat_plain (vmfault_spec (R := R) va hready (hspace.table (h.live me hme)) hspace.size)).2
    _ _ _ hrun
  have hmoves := (vmfault_moves Watch.lenient_lax (rfl : (k.proc me).pagetable = _)).holds hrun
  obtain ⟨e, he, hVe, hframe, -⟩ := hfault.resident hpa
  have hflags : e.getLsbD pteW = true ∧ e.getLsbD pteU = true := by
    unfold FaultEntry at hfrom
    rw [he] at hfrom
    rcases hfrom with hnew | ⟨e₀, he₀, hp₀, hback⟩
    · cases hnew
      constructor
      · exact (mapEntry_flag _ _ (by decide) (by decide)).trans (by decide)
      · exact (mapEntry_flag _ _ (by decide) (by decide)).trans (by decide)
    · cases hback
      rw [swapInEntry_flag _ _ (by decide) (by decide) (by decide),
        swapInEntry_flag _ _ (by decide) (by decide) (by decide)]
      obtain ⟨e', he', -, hWU⟩ := hpage.resolve_left fun hempty => hempty.hollow e₀ he₀ hp₀
      rw [he₀] at he'
      cases he'
      exact hWU
  refine ⟨pa, k', l, hrun, ?_, ?_, hfault.calm.procs, ?_, ⟨e, he, hVe, hflags.1, hframe⟩, hpa⟩
  · refine h.calm hfault.ready hfault.calm ?_
    rintro q v ⟨hq, rfl⟩
    have hqp : q = me := h.spaces.inj q me (by rw [hq]; exact h.live me hme) hq
    rw [hqp]
    exact addr_vpn_lt hva hspace.size
  · refine hm.keep (hfault.keeps hR) (fun p => (hfault.calm.procs p).pagetable) fun p => ?_
    rw [(hfault.calm.procs p).state]
    exact id
  · intro w hw
    by_cases hwv : w = vpn va
    · rw [hwv]
      exact Or.inr ⟨e, he, Or.inl hVe, hflags⟩
    · rcases hw with hw | ⟨e₀, he₀, hp₀, hW₀, hU₀⟩
      · exact Or.inl (hfault.calm.empty _ _ (fun hf => hwv hf.2) hw)
      · obtain ⟨e₁, he₁, hp₁, hf₁⟩ := hmoves.present (by rintro (hf | hf | hf) <;> cases hf)
          (by rintro (hf | hf | hf) <;> cases hf) he₀ hp₀
        refine Or.inr ⟨e₁, he₁, hp₁, ?_, ?_⟩
        · rw [hf₁ pteW (by decide) (by decide) (by decide) (by decide), hW₀]
        · rw [hf₁ pteU (by decide) (by decide) (by decide) (by decide), hU₀]

/-- **Fetching** a user page that is in memory, in swap or not yet allocated. -/
theorem fetchUser_fetches (hR : Reliable R) (h : Consistent k) (hm : Describes R k m)
    (hme : (k.proc me).state ≠ .unused) (hal : va % pgsize = 0) (hva : va < (k.proc me).sz)
    (hpage : k.UserPage (k.proc me).pagetable (vpn va))
    (hs : k.served me (k.proc me).pagetable va = true) :
    Returns (fetchUser me (k.proc me).pagetable va) (fun pa k' _ => Fetched R m me (vpn va) pa k k') k := by
  obtain ⟨g, hready⟩ := h.ready
  have hspace := h.spaces.each me
  have hmax : va < maxva := lt_of_lt_of_le hva (hspace.size.trans (by decide))
  obtain ⟨t, ht⟩ := Option.isSome_iff_exists.mp (hspace.table (h.live me hme))
  unfold fetchUser
  apply Returns.seq_run (walkaddr_run ht va)
  by_cases hV : ∀ e, k.tables.entry (k.proc me).pagetable (vpn va) = some e → e.getLsbD pteV = false
  · have h0 : k.userFrame (k.proc me).pagetable va = 0 := by
      unfold Kernel.userFrame
      rw [if_neg (Nat.not_le.mpr hmax)]
      cases he : k.tables.entry (k.proc me).pagetable (vpn va) with
      | none => rfl
      | some e => simp [hV e he]
    rw [if_pos h0]
    refine vmfault_fetches hR h hm hme hal hva hpage hV ?_
    unfold Kernel.served at hs
    refine (Bool.or_eq_true_iff.mp hs).resolve_left fun hany => ?_
    cases he : k.tables.entry (k.proc me).pagetable (vpn va) with
    | none => simp [he] at hany
    | some e => simp [he, hV e he] at hany
  · push Not at hV
    obtain ⟨e, he, hVe⟩ := hV
    have hVe' : e.getLsbD pteV = true := by simpa using hVe
    obtain ⟨e', he', -, hW, hU⟩ := hpage.resolve_left fun hempty => by
      rw [hempty e he] at hVe'
      simp at hVe'
    rw [he] at he'
    cases he'
    have hframe : k.userFrame (k.proc me).pagetable va = pte2pa e := by
      unfold Kernel.userFrame
      rw [if_neg (Nat.not_le.mpr hmax), he]
      simp [hVe', hU]
    have hpa : pte2pa e ≠ 0 := by
      have hown := (hready.inv.pages.resident he (h.not_special hva) hVe').1
      exact hready.inv.ne_zero (by rw [hown]; simp)
    rw [hframe, if_neg hpa]
    exact Returns.ret ⟨h, hm, fun _ => rfl, fun _ hw => hw, ⟨e, he, hVe', hW, rfl⟩, hpa⟩

end Fetch

/-! ## The loops -/

section Loops

variable {D : Type} [SwapStore D] {k k₁ : Kernel D} {me : ProcId} {pt pa n : Nat}

/-- What `fetchUser` does is what each turn of the loops begins with. -/
theorem fetchUser_turn {α : Type} {va : Nat} {l : List (Eviction D)} {f : Nat → KM D α}
    {P : α → Kernel D → Prop} (hfetch : fetchUser me pt va k = .ok (pa, k₁, l))
    (hf : Returns (f pa) (fun a k' _ => P a k') k₁) :
    Returns (walkaddr pt va >>= fun pa₀ => if pa₀ = 0 then vmfault me pt va >>= f else pure pa₀ >>= f)
      (fun a k' _ => P a k') k := by
  have heq : (walkaddr pt va >>= fun pa₀ => if pa₀ = 0 then vmfault me pt va >>= f else pure pa₀ >>= f) =
      fetchUser me pt va >>= f := by
    unfold fetchUser
    rw [bind_assoc]
    congr 1
    funext pa₀
    split <;> rfl
  rw [heq]
  exact Returns.seq (Returns.of_ok hfetch hf)

/-- The bytes that one turn copies. -/
def chunk (va len : Nat) : Nat := min (pgsize - (va - pgrounddown va)) len

/-- One turn ends with the page or with the range. -/
theorem chunk_spec (va len : Nat) : (0 < len → 0 < chunk va len) ∧ chunk va len ≤ len ∧
    va - pgrounddown va + chunk va len ≤ pgsize ∧
    (chunk va len < len → pgrounddown va + pgsize = va + chunk va len) := by
  unfold chunk pgrounddown pgsize
  omega

theorem chunk_fuel {va len : Nat} (h : va % pgsize + len ≤ (n + 1) * pgsize) :
    (pgrounddown va + pgsize) % pgsize + (len - chunk va len) ≤ n * pgsize := by
  unfold chunk pgrounddown pgsize at *
  omega

theorem Flat.write_chunk (m : Flat) (p : ProcId) (va : Nat) (src : List UInt8) :
    (m.write p va (src.take (chunk va src.length))).write p (pgrounddown va + pgsize)
      (src.drop (chunk va src.length)) = m.write p va src := by
  obtain ⟨-, hle, -, hnext⟩ := chunk_spec va src.length
  by_cases hlt : chunk va src.length < src.length
  · have hlen : (src.take (chunk va src.length)).length = chunk va src.length :=
      List.length_take_of_le hle
    rw [hnext hlt]
    have happ := m.write_append p va (src.take (chunk va src.length)) (src.drop (chunk va src.length))
    rwa [hlen, List.take_append_drop] at happ
  · rw [List.drop_eq_nil_iff.mpr (Nat.not_lt.mp hlt), List.take_of_length_le (Nat.not_lt.mp hlt),
      Flat.write_nil]

theorem Flat.read_chunk (m : Flat) (p : ProcId) (va len : Nat) :
    m.read p va (chunk va len) ++ m.read p (pgrounddown va + pgsize) (len - chunk va len) =
      m.read p va len := by
  obtain ⟨-, hle, -, hnext⟩ := chunk_spec va len
  by_cases hlt : chunk va len < len
  · rw [hnext hlt, ← Flat.read_add, Nat.add_sub_cancel' hle]
  · obtain heq : chunk va len = len := by omega
    rw [heq, Nat.sub_self]
    exact List.append_nil _

/-- One turn of `copyout`. -/
theorem copyoutLoop_turn {va : Nat} {b : UInt8} {bs : List UInt8} {l : List (Eviction D)}
    {e : Pte} {P : Int → Kernel D → Prop} (hva : pgrounddown va < maxva)
    (hfetch : fetchUser me pt (pgrounddown va) k = .ok (pa, k₁, l)) (hpa : pa ≠ 0)
    (he : k₁.tables.entry pt (vpn (pgrounddown va)) = some e) (hW : e.getLsbD pteW = true)
    (hrest : Returns (copyoutLoop me pt n (pgrounddown va + pgsize) ((b :: bs).drop (chunk va (b :: bs).length)))
      (fun res k' _ => P res k') (k₁.setMem pa (writeBytes (k₁.mem pa) (va - pgrounddown va)
        ((b :: bs).take (chunk va (b :: bs).length))))) :
    Returns (copyoutLoop me pt (n + 1) va (b :: bs)) (fun res k' _ => P res k') k := by
  obtain ⟨t₁, ht₁⟩ := isSome_of_entry he
  unfold copyoutLoop
  dsimp only
  rw [if_neg (Nat.not_le.mpr hva)]
  refine fetchUser_turn hfetch ?_
  rw [if_neg hpa]
  apply Returns.seq_run (walk_run hva ht₁)
  rw [he]
  apply Returns.seq_run (deref_run (p := ⟨pt, vpn (pgrounddown va)⟩) he)
  rw [if_neg (by simp [hW])]
  apply Returns.seq_update
  exact hrest

/-- One turn of `copyin`. -/
theorem copyinLoop_turn {va len : Nat} {l : List (Eviction D)} {P : Int × List UInt8 → Kernel D → Prop}
    (hfetch : fetchUser me pt (pgrounddown va) k = .ok (pa, k₁, l)) (hpa : pa ≠ 0)
    (hrest : Returns (copyinLoop me pt n (pgrounddown va + pgsize) (len + 1 - chunk va (len + 1)))
      (fun res k' _ => P (res.1, readBytes (k₁.mem pa) (va - pgrounddown va) (chunk va (len + 1)) ++ res.2) k')
      k₁) :
    Returns (copyinLoop me pt (n + 1) va (len + 1)) (fun res k' _ => P res k') k := by
  unfold copyinLoop
  dsimp only
  refine fetchUser_turn hfetch ?_
  rw [if_neg hpa]
  apply Returns.seq_get
  apply Returns.seq
  exact hrest.mono fun res k' _ h => Returns.ret h

/-! ## Every page of the range in turn -/

/-- Frames can be had for every page that `copyout` comes to. -/
def copyoutServed (me : ProcId) (pt : Nat) : Nat → Nat → List UInt8 → Kernel D → Bool
  | n + 1, va, b :: bs, k =>
    k.served me pt (pgrounddown va) &&
      match fetchUser me pt (pgrounddown va) k with
      | .error _ => false
      | .ok (pa, k₁, _) =>
        copyoutServed me pt n (pgrounddown va + pgsize) ((b :: bs).drop (chunk va (b :: bs).length))
          (k₁.setMem pa (writeBytes (k₁.mem pa) (va - pgrounddown va)
            ((b :: bs).take (chunk va (b :: bs).length))))
  | _, _, _, _ => true

/-- Frames can be had for every page that `copyin` comes to. -/
def copyinServed (me : ProcId) (pt : Nat) : Nat → Nat → Nat → Kernel D → Bool
  | n + 1, va, len + 1, k =>
    k.served me pt (pgrounddown va) &&
      match fetchUser me pt (pgrounddown va) k with
      | .error _ => false
      | .ok (_, k₁, _) =>
        copyinServed me pt n (pgrounddown va + pgsize) (len + 1 - chunk va (len + 1)) k₁
  | _, _, _, _ => true

/-- What the loops keep: the kernel is consistent and describes the memory `m`, the processes are what
they were, and user pages stay user pages. -/
structure Copied (R : View D) (m : Flat) (r : Nat) (k k' : Kernel D) : Prop where
  consistent : Consistent k'
  describes : Describes R k' m
  procs : ∀ p, (k.proc p).SameButStats (k'.proc p)
  pages : ∀ w, k.UserPage r w → k'.UserPage r w

omit [SwapStore D] in
theorem Copied.after {R : View D} {m m' : Flat} {r : Nat} {k' : Kernel D} (h : Copied R m r k k₁)
    (h' : Copied R m' r k₁ k') : Copied R m' r k k' where
  consistent := h'.consistent
  describes := h'.describes
  procs p := (h.procs p).trans (h'.procs p)
  pages w hw := h'.pages w (h.pages w hw)

variable {R : View D}

section Fetched

omit [SwapStore D]

variable {m : Flat} {va : Nat} (h : Fetched R m me (vpn (pgrounddown va)) pa k k₁)
  (hme : (k.proc me).state ≠ .unused) (hva : va < (k.proc me).sz)

include h hme hva

theorem Fetched.mem_frame : k₁.mem pa = m.page me (vpn (pgrounddown va)) := by
  obtain ⟨e, he, hV, -, rfl⟩ := h.resident
  have hsame := h.procs me
  have hlt : va < (k₁.proc me).sz := by
    rw [hsame.sz]
    exact hva
  have hv := h.consistent.not_special hlt
  rw [← vpn_pgrounddown] at hv
  rw [← hsame.pagetable] at he
  exact (h.describes.resident (by rw [hsame.state]; exact hme) hv he hV).symm

omit hme in
/-- Where an address lies in its page. -/
theorem Fetched.offset : va = (vpn (pgrounddown va)).addr + (va - pgrounddown va) := by
  have hsize := (h.consistent.spaces.each me).size
  rw [(h.procs me).sz] at hsize
  have hmax : va < maxva := lt_of_lt_of_le hva (hsize.trans (by decide))
  rw [addr_vpn (pgrounddown_aligned va) (lt_of_le_of_lt (pgrounddown_le va) hmax)]
  have := pgrounddown_le va
  omega

/-- The frame of the page is written. -/
theorem Fetched.write {bytes : List UInt8} (hfit : va - pgrounddown va + bytes.length ≤ pgsize) :
    Copied R (m.write me va bytes) (k.proc me).pagetable k
      (k₁.setMem pa (writeBytes (k₁.mem pa) (va - pgrounddown va) bytes)) := by
  have hoff := h.offset hva
  have hpage : (m.write me va bytes).page me (vpn (pgrounddown va)) = _ := Flat.page_write hoff
  rw [← h.mem_frame hme hva] at hpage
  obtain ⟨e, he, hV, -, rfl⟩ := h.resident
  have hsame := h.procs me
  have hlt : va < (k₁.proc me).sz := by
    rw [hsame.sz]
    exact hva
  have hv := h.consistent.not_special hlt
  rw [← vpn_pgrounddown] at hv
  rw [← hsame.pagetable] at he
  have hother : ∀ q w, ¬ (q = me ∧ w = vpn (pgrounddown va)) →
      (m.write me va bytes).page q w = m.page q w := fun q w hne => Flat.page_write_other hoff hfit hne
  have hset := h.describes.setPage h.consistent (by rw [hsame.state]; exact hme) hv he hV hother
  rw [hpage] at hset
  exact ⟨h.consistent.setMem _ _, hset, h.procs, h.pages⟩

end Fetched

/-- `copyout` writes the bytes, page by page. -/
theorem copyoutLoop_writes (hR : Reliable R) (n : Nat) : ∀ {k : Kernel D} {m : Flat} {va : Nat}
    {src : List UInt8}, Consistent k → Describes R k m → (k.proc me).state ≠ .unused →
    (k.proc me).pagetable = pt →
    (∀ a, va ≤ a → a < va + src.length → a < (k.proc me).sz ∧ k.UserPage pt (vpn a)) →
    va % pgsize + src.length ≤ n * pgsize → copyoutServed me pt n va src k = true →
    Returns (copyoutLoop me pt n va src)
      (fun res k' _ => res = 0 ∧ Copied R (m.write me va src) pt k k') k := by
  induction n with
  | zero =>
    intro k m va src h hm _ _ _ hfuel _
    obtain rfl : src = [] := List.length_eq_zero_iff.mp (by omega)
    rw [Flat.write_nil]
    exact Returns.ret ⟨rfl, h, hm, fun _ => rfl, fun _ hw => hw⟩
  | succ n ih =>
    intro k m va src h hm hme hroot hpages hfuel hserved
    cases src with
    | nil =>
      rw [Flat.write_nil]
      exact Returns.ret ⟨rfl, h, hm, fun _ => rfl, fun _ hw => hw⟩
    | cons b bs =>
      subst hroot
      have hchunk := chunk_spec va (b :: bs).length
      obtain ⟨hva, hpage⟩ := hpages va (Nat.le_refl va) (by simp)
      have hle := pgrounddown_le va
      have hmax : pgrounddown va < maxva := by
        have := (h.spaces.each me).size
        have : trapframe < maxva := by decide
        omega
      unfold copyoutServed at hserved
      obtain ⟨hs, hserved⟩ := Bool.and_eq_true_iff.mp hserved
      rw [← vpn_pgrounddown] at hpage
      obtain ⟨pa, k₁, l, hfetch, hfetched⟩ := fetchUser_fetches hR h hm hme (pgrounddown_aligned va)
        (by omega) hpage hs
      obtain ⟨e, he, -, hW, -⟩ := hfetched.resident
      rw [hfetch] at hserved
      have hfit : va - pgrounddown va + ((b :: bs).take (chunk va (b :: bs).length)).length ≤ pgsize := by
        rw [List.length_take_of_le hchunk.2.1]
        exact hchunk.2.2.1
      have hwritten := hfetched.write hme hva hfit
      refine copyoutLoop_turn hmax hfetch hfetched.frame he hW ?_
      have hsame := hwritten.procs me
      refine (ih hwritten.consistent hwritten.describes (by rw [hsame.state]; exact hme)
        hsame.pagetable ?_ ?_ hserved).mono ?_
      · intro a ha₁ ha₂
        rw [List.length_drop] at ha₂
        have hnext := hchunk.2.2.2 (by omega)
        obtain ⟨ha, hp⟩ := hpages a (by omega) (by omega)
        rw [hsame.sz]
        exact ⟨ha, hwritten.pages _ hp⟩
      · rw [List.length_drop]
        exact chunk_fuel hfuel
      · rintro res k₂ _ ⟨rfl, hcopied⟩
        rw [Flat.write_chunk] at hcopied
        exact ⟨rfl, hwritten.after hcopied⟩

/-- `copyin` reads the bytes, page by page. -/
theorem copyinLoop_reads (hR : Reliable R) (n : Nat) : ∀ {k : Kernel D} {m : Flat} {va len : Nat},
    Consistent k → Describes R k m → (k.proc me).state ≠ .unused → (k.proc me).pagetable = pt →
    (∀ a, va ≤ a → a < va + len → a < (k.proc me).sz ∧ k.UserPage pt (vpn a)) →
    va % pgsize + len ≤ n * pgsize → copyinServed me pt n va len k = true →
    Returns (copyinLoop me pt n va len)
      (fun res k' _ => res = (0, m.read me va len) ∧ Copied R m pt k k') k := by
  induction n with
  | zero =>
    intro k m va len h hm _ _ _ hfuel _
    obtain rfl : len = 0 := by omega
    exact Returns.ret ⟨rfl, h, hm, fun _ => rfl, fun _ hw => hw⟩
  | succ n ih =>
    intro k m va len h hm hme hroot hpages hfuel hserved
    cases len with
    | zero => exact Returns.ret ⟨rfl, h, hm, fun _ => rfl, fun _ hw => hw⟩
    | succ len =>
      subst hroot
      have hchunk := chunk_spec va (len + 1)
      obtain ⟨hva, hpage⟩ := hpages va (Nat.le_refl va) (by omega)
      have hle := pgrounddown_le va
      unfold copyinServed at hserved
      obtain ⟨hs, hserved⟩ := Bool.and_eq_true_iff.mp hserved
      rw [← vpn_pgrounddown] at hpage
      obtain ⟨pa, k₁, l, hfetch, hfetched⟩ := fetchUser_fetches hR h hm hme (pgrounddown_aligned va)
        (by omega) hpage hs
      rw [hfetch] at hserved
      refine copyinLoop_turn hfetch hfetched.frame ?_
      have hsame := hfetched.procs me
      have hcopied : Copied R m (k.proc me).pagetable k k₁ :=
        ⟨hfetched.consistent, hfetched.describes, hfetched.procs, hfetched.pages⟩
      have hbytes : readBytes (k₁.mem pa) (va - pgrounddown va) (chunk va (len + 1)) =
          m.read me va (chunk va (len + 1)) := by
        rw [hfetched.mem_frame hme hva]
        exact readBytes_page (hfetched.offset hva) hchunk.2.2.1
      refine (ih hcopied.consistent hcopied.describes (by rw [hsame.state]; exact hme)
        hsame.pagetable ?_ (chunk_fuel hfuel) hserved).mono ?_
      · intro a ha₁ ha₂
        have hnext := hchunk.2.2.2 (by omega)
        obtain ⟨ha, hp⟩ := hpages a (by omega) (by omega)
        rw [hsame.sz]
        exact ⟨ha, hcopied.pages _ hp⟩
      · rintro res k₂ _ ⟨rfl, hrest⟩
        rw [hbytes, Flat.read_chunk]
        exact ⟨rfl, hcopied.after hrest⟩

end Loops

/-! ## The round trip -/

section RoundTrip

variable {D : Type} [SwapStore D] {R : View D} {k : Kernel D} {m : Flat} {me : ProcId}

theorem turns_suffice (va len : Nat) : va % pgsize + len ≤ (len / pgsize + 2) * pgsize := by
  unfold pgsize
  omega

/-- **What `copyout` writes `copyin` reads**, over memory that is paged. Let the kernel be consistent and
describe the memory `m`, the swap device be reliable, and every page of the range lie below the size of
the process and be user-writable, in memory, in swap or not yet allocated. If frames can be had for the
faults of the two calls, then `copyout` returns `0`; the memory described then is `m` with the bytes
written in the range, for every process and every other byte as it was; and `copyin` returns those bytes
and leaves that memory as it is. -/
theorem copyout_copyin (hR : Reliable R) (h : Consistent k) (hm : Describes R k m)
    (hme : (k.proc me).state ≠ .unused) {dstva : Nat} {src : List UInt8}
    (hsz : dstva + src.length ≤ (k.proc me).sz)
    (hpages : ∀ a, dstva ≤ a → a < dstva + src.length → k.UserPage (k.proc me).pagetable (vpn a))
    (hout : copyoutServed me (k.proc me).pagetable (src.length / pgsize + 2) dstva src k = true)
    (hin : copyinServed me (k.proc me).pagetable (src.length / pgsize + 2) dstva src.length
      ((copyout me (k.proc me).pagetable dstva src).after k) = true) :
    ∃ k₁ k₂ l₁ l₂, copyout me (k.proc me).pagetable dstva src k = .ok (0, k₁, l₁) ∧
      Describes R k₁ (m.write me dstva src) ∧
      copyin me (k.proc me).pagetable dstva src.length k₁ = .ok ((0, src), k₂, l₂) ∧
      Describes R k₂ (m.write me dstva src) := by
  obtain ⟨_, k₁, l₁, hrun, rfl, hwritten⟩ := copyoutLoop_writes hR _ h hm hme
    (Eq.refl (k.proc me).pagetable) (fun a h₁ h₂ => ⟨by omega, hpages a h₁ h₂⟩)
    (turns_suffice dstva src.length) hout
  have hafter : (copyout me (k.proc me).pagetable dstva src).after k = k₁ := by
    unfold copyout after
    rw [hrun]
  rw [hafter] at hin
  have hsame := hwritten.procs me
  obtain ⟨_, k₂, l₂, hrun₂, rfl, hread⟩ := copyinLoop_reads hR _ hwritten.consistent hwritten.describes
    (by rw [hsame.state]; exact hme) hsame.pagetable
    (fun a h₁ h₂ => ⟨by rw [hsame.sz]; omega, hwritten.pages _ (hpages a h₁ h₂)⟩)
    (turns_suffice dstva src.length) hin
  rw [Flat.read_write] at hrun₂
  exact ⟨k₁, k₂, l₁, l₂, hrun, hwritten.describes, hrun₂, hread.describes⟩

end RoundTrip

/-! ### A range with a page in swap, one in memory and one not yet allocated -/

namespace Family

/-- Two bytes at the end of the first page, the second page, and two bytes of the third. -/
def bytes : List UInt8 := List.replicate 4100 7

theorem copies : (∀ i : Fin 3, lazyGrown.UserPage (lazyGrown.proc 0).pagetable (vpn (i * pgsize))) ∧
    copyoutServed 0 (lazyGrown.proc 0).pagetable (bytes.length / pgsize + 2) 4094 bytes lazyGrown = true ∧
    copyinServed 0 (lazyGrown.proc 0).pagetable (bytes.length / pgsize + 2) 4094 bytes.length
      ((copyout 0 (lazyGrown.proc 0).pagetable 4094 bytes).after lazyGrown) = true := by
  decide +kernel

theorem lazyGrown_pages {a : Nat} (ha : a < 12288) :
    lazyGrown.UserPage (lazyGrown.proc 0).pagetable (vpn a) := by
  have hpage := copies.1 ⟨a / pgsize, by unfold pgsize; omega⟩
  rw [← vpn_pgrounddown]
  exact hpage

end Family

/-- Bytes copied out over three pages, one in swap and one not yet there, are read back. -/
theorem copyout_copyin_family : ∃ m : Flat, Describes PageArray.view Family.lazyGrown m ∧
    ∃ k₁ k₂ l₁ l₂, copyout 0 (Family.lazyGrown.proc 0).pagetable 4094 Family.bytes Family.lazyGrown =
        .ok (0, k₁, l₁) ∧
      Describes PageArray.view k₁ (m.write 0 4094 Family.bytes) ∧
      copyin 0 (Family.lazyGrown.proc 0).pagetable 4094 4100 k₁ = .ok ((0, Family.bytes), k₂, l₂) ∧
      Describes PageArray.view k₂ (m.write 0 4094 Family.bytes) := by
  obtain ⟨m, hm⟩ := Family.lazyGrown_consistent.describes (R := PageArray.view) fun s _ => ⟨_, rfl⟩
  have hlen : Family.bytes.length = 4100 := List.length_replicate
  obtain ⟨-, -, -, hused, hsz⟩ := Family.lazyGrown_runs
  obtain ⟨-, hout, hin⟩ := Family.copies
  have hfits : 4094 + Family.bytes.length ≤ (Family.lazyGrown.proc 0).sz := by
    rw [hsz, hlen]
    decide
  have htrip := copyout_copyin PageArray.reliable Family.lazyGrown_consistent hm hused hfits
    (fun a _ ha => Family.lazyGrown_pages (by rw [hlen] at ha; omega)) hout hin
  rw [hlen] at htrip
  exact ⟨m, hm, htrip⟩

end Xv6
