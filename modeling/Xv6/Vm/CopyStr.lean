import Xv6.Vm.FlatMemory

/-!
# Strings from user memory

`copyinstr` reads a string byte by byte (`readString`), where a byte can be read when its page is in
memory and accessible to user code. It never takes a page fault: a page that was swapped out counts as
not mapped. So the outcome is the one of the same address space with all its pages in memory exactly
when no page that the string reaches is swapped out.
-/

namespace Xv6

open TraceM

/-! ## Reading a string byte by byte -/

/-- At most `max` bytes from address `a` on, until the first `0` or an address that cannot be read. -/
def readString (byte : Nat → Option UInt8) : Nat → Nat → Int × List UInt8
  | 0, _ => (-1, [])
  | max + 1, a =>
    match byte a with
    | none => (-1, [])
    | some c =>
      if c = 0 then (0, [0])
      else
        let (ret, rest) := readString byte max (a + 1)
        (ret, c :: rest)

variable {byte byte' : Nat → Option UInt8} {a : Nat}

theorem readString_none {max : Nat} (h : byte a = none) : readString byte max a = (-1, []) := by
  cases max with
  | zero => rfl
  | succ max => simp [readString, h]

theorem readString_null {max : Nat} (h : byte a = some 0) : readString byte (max + 1) a = (0, [0]) := by
  simp [readString, h]

theorem readString_cons {max : Nat} {c : UInt8} (h : byte a = some c) (hc : c ≠ 0) :
    readString byte (max + 1) a =
      ((readString byte max (a + 1)).1, c :: (readString byte max (a + 1)).2) := by
  simp [readString, h, hc]

/-- **Fewer readable bytes**: if some addresses cannot be read any more, the outcome stays the same
exactly when the string does not reach one of them. -/
theorem readString_eq_iff (h : ∀ a, byte a = byte' a ∨ byte a = none) (max : Nat) : ∀ a,
    readString byte max a = readString byte' max a ↔
      ∀ m < max, (∀ j < m, ∃ c, c ≠ 0 ∧ byte' (a + j) = some c) → byte (a + m) = byte' (a + m) := by
  induction max with
  | zero => exact fun a => ⟨fun _ m hm => absurd hm (Nat.not_lt_zero m), fun _ => rfl⟩
  | succ max ih =>
    intro a
    by_cases heq : byte a = byte' a
    · cases hb : byte' a with
      | none =>
        refine ⟨fun _ m _ hall => ?_, fun _ => ?_⟩
        · rcases m with - | m
          · exact heq
          · obtain ⟨c, -, hc⟩ := hall 0 (Nat.succ_pos m)
            rw [Nat.add_zero, hb] at hc
            cases hc
        · rw [readString_none hb, readString_none (heq.trans hb)]
      | some c =>
        by_cases hc : c = 0
        · subst hc
          refine ⟨fun _ m _ hall => ?_, fun _ => ?_⟩
          · rcases m with - | m
            · exact heq
            · obtain ⟨c, hc, hb'⟩ := hall 0 (Nat.succ_pos m)
              rw [Nat.add_zero, hb] at hb'
              cases hb'
              exact absurd rfl hc
          · rw [readString_null hb, readString_null (heq.trans hb)]
        · rw [readString_cons hb hc, readString_cons (heq.trans hb) hc, Prod.mk.injEq, List.cons.injEq]
          have hsame : ((readString byte max (a + 1)).1 = (readString byte' max (a + 1)).1 ∧ c = c ∧
              (readString byte max (a + 1)).2 = (readString byte' max (a + 1)).2) ↔
              readString byte max (a + 1) = readString byte' max (a + 1) := by
            rw [Prod.ext_iff]
            simp
          rw [hsame, ih]
          constructor
          · intro hrest m hm hall
            rcases m with - | m
            · exact heq
            · rw [Nat.add_comm m, ← Nat.add_assoc]
              refine hrest m (by omega) fun j hj => ?_
              rw [Nat.add_assoc, Nat.add_comm 1]
              exact hall (j + 1) (by omega)
          · intro hall m hm hrest
            rw [Nat.add_assoc, Nat.add_comm 1]
            refine hall (m + 1) (by omega) fun j hj => ?_
            rcases j with - | j
            · exact ⟨c, hc, hb⟩
            · rw [Nat.add_comm j, ← Nat.add_assoc]
              exact hrest j (by omega)
    · have hnone : byte a = none := (h a).resolve_left heq
      refine ⟨fun hr => ?_, fun hall =>
        absurd (hall 0 (Nat.succ_pos max) fun j hj => absurd hj (Nat.not_lt_zero j)) heq⟩
      rw [readString_none hnone] at hr
      exfalso
      cases hb : byte' a with
      | none => exact heq (hnone.trans hb.symm)
      | some c =>
        by_cases hc : c = 0
        · subst hc
          rw [readString_null hb] at hr
          cases hr
        · rw [readString_cons hb hc] at hr
          cases congrArg Prod.snd hr

/-- One page of the string at once. -/
theorem readString_scan (page : Page) (m : Nat) (n : Nat) : ∀ off a,
    (∀ i < n, byte (a + i) = some (page (pageOffset (off + i)))) →
      readString byte (n + m) a =
        if (copyinstrScan page n off).2 then (0, (copyinstrScan page n off).1)
        else ((readString byte m (a + n)).1, (copyinstrScan page n off).1 ++ (readString byte m (a + n)).2) := by
  induction n with
  | zero =>
    intro off a _
    simp [copyinstrScan]
  | succ n ih =>
    intro off a h
    have h₀ : byte a = some (page (pageOffset off)) := h 0 (Nat.succ_pos n)
    have hrest := ih (off + 1) (a + 1) fun i hi => by
      rw [Nat.add_assoc, Nat.add_comm 1, Nat.add_assoc, Nat.add_comm 1]
      exact h (i + 1) (by omega)
    rw [Nat.add_right_comm n 1 m]
    by_cases hc : page (pageOffset off) = 0
    · rw [hc] at h₀
      rw [readString_null h₀]
      simp [copyinstrScan, hc]
    · rw [readString_cons h₀ hc, hrest, Nat.add_assoc a 1 n, Nat.add_comm 1 n]
      simp only [copyinstrScan, if_neg hc]
      split <;> rfl

/-! ## One run of `copyinstr` -/

variable {D : Type} {k : Kernel D} {pt : Nat}

/-- What `walkaddr` returns. -/
def Kernel.userFrame (k : Kernel D) (pt va : Nat) : Nat :=
  if maxva ≤ va then 0
  else
    match k.tables.entry pt (vpn va) with
    | none => 0
    | some e => if e.getLsbD pteV && e.getLsbD pteU then pte2pa e else 0

theorem walkaddr_run {t : PageTable} (ht : k.tables pt = some t) (va : Nat) :
    walkaddr pt va k = .ok (k.userFrame pt va, k, []) := by
  unfold walkaddr Kernel.userFrame
  by_cases hva : maxva ≤ va
  · rw [if_pos hva, if_pos hva]
    rfl
  · rw [if_neg hva, if_neg hva, bind_of_ok (walk_run (Nat.not_le.mp hva) ht)]
    cases he : k.tables.entry pt (vpn va) with
    | none => rfl
    | some e =>
      dsimp only [Option.map_some]
      rw [bind_of_ok (deref_run he)]
      cases hV : e.getLsbD pteV with
      | false => rfl
      | true =>
        cases hU : e.getLsbD pteU with
        | false => rfl
        | true => rfl

/-- The byte at an address of a page in memory that user code may access. -/
def Kernel.userByte (k : Kernel D) (pt a : Nat) : Option UInt8 :=
  if k.userFrame pt a = 0 then none else some (k.mem (k.userFrame pt a) (pageOffset a))

theorem Kernel.userFrame_pgrounddown (k : Kernel D) (pt a : Nat) :
    k.userFrame pt (pgrounddown a) = k.userFrame pt a := by
  have hmax : maxva ≤ pgrounddown a ↔ maxva ≤ a := by
    unfold pgrounddown maxva pgsize
    omega
  unfold Kernel.userFrame
  rw [vpn_pgrounddown]
  simp only [hmax]

/-- The loop of `copyinstr` reads the string across pages. -/
theorem copyinstrLoop_run {t : PageTable} (ht : k.tables pt = some t) (n : Nat) : ∀ srcva max, max ≤ n →
    copyinstrLoop pt n srcva max k = .ok (readString (k.userByte pt) max srcva, k, []) := by
  induction n with
  | zero =>
    intro srcva max hmax
    obtain rfl := Nat.le_zero.mp hmax
    rfl
  | succ n ih =>
    intro srcva max hmax
    unfold copyinstrLoop
    by_cases h0 : max = 0
    · rw [if_pos h0, h0]
      rfl
    · have hpage : pgrounddown srcva ≤ srcva ∧ srcva < pgrounddown srcva + pgsize := by
        unfold pgrounddown pgsize
        omega
      obtain ⟨off, hoff⟩ : ∃ off, srcva - pgrounddown srcva = off := ⟨_, rfl⟩
      rw [if_neg h0, bind_of_ok (walkaddr_run ht _), k.userFrame_pgrounddown, hoff]
      by_cases hf : k.userFrame pt srcva = 0
      · rw [if_pos hf, readString_none (by simp [Kernel.userByte, hf])]
        rfl
      · obtain ⟨n₀, hn₀⟩ : ∃ n₀, min (pgsize - off) max = n₀ := ⟨_, rfl⟩
        rw [if_neg hf, get_bind_apply, hn₀]
        have hbytes : ∀ i < n₀, k.userByte pt (srcva + i) =
            some (k.mem (k.userFrame pt srcva) (pageOffset (off + i))) := by
          intro i hi
          have hsame : pgrounddown (srcva + i) = pgrounddown srcva := by
            unfold pgrounddown pgsize at *
            omega
          have hoffset : pageOffset (srcva + i) = pageOffset (off + i) := by
            apply Fin.ext
            show (srcva + i) % pgsize = (off + i) % pgsize
            unfold pgrounddown pgsize at *
            omega
          unfold Kernel.userByte
          rw [← k.userFrame_pgrounddown, hsame, k.userFrame_pgrounddown, if_neg hf, hoffset]
        have hscan := readString_scan (k.mem (k.userFrame pt srcva)) (max - n₀) n₀ off srcva hbytes
        rw [show n₀ + (max - n₀) = max by omega] at hscan
        rw [hscan]
        cases hnull : (copyinstrScan (k.mem (k.userFrame pt srcva)) n₀ off).2 with
        | true => simp [hnull]
        | false =>
          simp only [hnull, Bool.false_eq_true, if_false]
          have hpos : 0 < n₀ := by
            rw [← hn₀]
            unfold pgsize at *
            omega
          rw [bind_of_ok (ih (pgrounddown srcva + pgsize) (max - n₀) (by omega))]
          -- the next turn starts at the next page, or there is nothing left to read
          by_cases hlast : max - n₀ = 0
          · rw [hlast]
            rfl
          · have hnext : pgrounddown srcva + pgsize = srcva + n₀ := by omega
            rw [hnext]
            rfl

/-- **`copyinstr`** reads the string byte by byte. -/
theorem copyinstr_run {t : PageTable} (ht : k.tables pt = some t) (srcva max : Nat) :
    copyinstr pt srcva max k = .ok (readString (k.userByte pt) max srcva, k, []) :=
  copyinstrLoop_run ht max srcva max (Nat.le_refl max)

/-! ## Two states of one address space -/

/-- The address space `pt` of `k` is the one of `full` with the pages `out` swapped out. -/
structure SwappedOut (R : View D) (pt : Nat) (out : Vpn → Prop) (full k : Kernel D) : Prop where
  table : ∃ t, full.tables pt = some t
  table' : ∃ t, k.tables pt = some t
  gone : ∀ v, out v → ∃ e, ∃ s : Fin maxSwap, full.tables.entry pt v = some e ∧ e.getLsbD pteV = true ∧
    k.tables.entry pt v = some (swapEntry s e) ∧ R k.disk s (full.mem (pte2pa e))
  same : ∀ v, ¬ out v → k.tables.entry pt v = full.tables.entry pt v ∧
    ∀ e, full.tables.entry pt v = some e → e.getLsbD pteV = true → k.mem (pte2pa e) = full.mem (pte2pa e)

namespace SwappedOut

variable {R : View D} {out : Vpn → Prop} {full : Kernel D}

/-- A byte of a page in swap cannot be read. -/
theorem userByte_out (h : SwappedOut R pt out full k) {a : Nat} (ha : out (vpn a)) :
    k.userByte pt a = none := by
  obtain ⟨e, s, -, -, he, -⟩ := h.gone _ ha
  simp [Kernel.userByte, Kernel.userFrame, he, swapEntry_not_valid]

/-- The bytes of the other pages are as before. -/
theorem userByte_same (h : SwappedOut R pt out full k) {a : Nat} (ha : ¬ out (vpn a)) :
    k.userByte pt a = full.userByte pt a := by
  obtain ⟨hentry, hmem⟩ := h.same _ ha
  have hframe : k.userFrame pt a = full.userFrame pt a := by
    unfold Kernel.userFrame
    rw [hentry]
  unfold Kernel.userByte
  rw [hframe]
  by_cases h0 : full.userFrame pt a = 0
  · rw [if_pos h0, if_pos h0]
  · rw [if_neg h0, if_neg h0]
    unfold Kernel.userFrame at h0 ⊢
    split at h0
    · exact absurd rfl h0
    · next hva =>
        rw [if_neg hva]
        cases he : full.tables.entry pt (vpn a) with
        | none =>
          rw [he] at h0
          exact absurd rfl h0
        | some e =>
          rw [he] at h0
          dsimp only at h0 ⊢
          split at h0
          · next hVU =>
              rw [if_pos hVU, hmem e he (Bool.and_eq_true_iff.mp hVU).1]
          · exact absurd rfl h0

end SwappedOut

/-- `swapout` takes one page out. -/
theorem swapout_swappedOut [SwapStore D] {R : View D} (hR : Reliable R) {me : ProcId} {va : Nat} {t : PageTable}
    {s : Fin maxSwap} {l : List (Eviction D)} {k' : Kernel D} (hva : va < maxva) (ht : k.tables pt = some t)
    (hrun : swapout me pt va k = .ok (some s, k', l)) : SwappedOut R pt (· = vpn va) k k' := by
  obtain ⟨e, d, he, hV, -, -, hout, rfl⟩ := (swapout_spec (fun _ => trivial) me hva ht).holds hrun
  refine ⟨⟨t, ht⟩, ?_, ?_, fun v hv => ⟨?_, fun _ _ _ => rfl⟩⟩
  · rw [← Option.isSome_iff_exists]
    show ((k.tables.setEntry pt _ _) pt).isSome
    rw [Tables.isSome_setEntry, ht]
    rfl
  · rintro v rfl
    refine ⟨e, s, he, hV, ?_, hR.noteWrite (hR.out hout)⟩
    show (k.tables.setEntry pt _ _).entry pt (vpn va) = _
    rw [Tables.entry_setEntry, if_pos ⟨rfl, rfl⟩, he]
    rfl
  · show (k.tables.setEntry pt _ _).entry pt v = _
    rw [Tables.entry_setEntry, if_neg fun h => hv h.2]

/-- **`copyinstr` depends on residency**: it returns the same result and the same bytes as with all
pages in memory exactly when no page that the string reaches, and that user code may access, is swapped
out. -/
theorem copyinstr_residency_iff {R : View D} {out : Vpn → Prop} {full : Kernel D}
    (h : SwappedOut R pt out full k) (srcva max : Nat) :
    ∃ r r', copyinstr pt srcva max full = .ok (r, full, []) ∧ copyinstr pt srcva max k = .ok (r', k, []) ∧
      (r' = r ↔ ∀ m < max, (∀ j < m, ∃ c, c ≠ 0 ∧ full.userByte pt (srcva + j) = some c) →
        out (vpn (srcva + m)) → full.userByte pt (srcva + m) = none) := by
  obtain ⟨t, ht⟩ := h.table
  obtain ⟨t', ht'⟩ := h.table'
  refine ⟨_, _, copyinstr_run ht srcva max, copyinstr_run ht' srcva max, ?_⟩
  have hbytes : ∀ a, k.userByte pt a = full.userByte pt a ∨ k.userByte pt a = none := by
    intro a
    by_cases ha : out (vpn a)
    · exact Or.inr (h.userByte_out ha)
    · exact Or.inl (h.userByte_same ha)
  rw [readString_eq_iff hbytes]
  constructor
  · intro hall m hm hbefore hm'
    rw [← hall m hm hbefore]
    exact h.userByte_out hm'
  · intro hall m hm hbefore
    by_cases hm' : out (vpn (srcva + m))
    · rw [h.userByte_out hm', hall m hm hbefore hm']
    · exact h.userByte_same hm'

/-! ### An empty string on a page that was swapped out -/

namespace Family

/-- The table of the process with two pages. -/
def root : Nat := (grown.proc 0).pagetable

/-- There is a string on each page. -/
@[irreducible] def spoken : Kernel PageArray :=
  (do let _ ← copyout 0 root 0 [104, 105]; copyout 0 root 4096 [111, 107] : KM PageArray Int).after grown

/-- The first page went out. -/
@[irreducible] def hushed : Kernel PageArray := (swapout 0 root 0).after spoken

theorem swappedOut : SwappedOut PageArray.view root (· = vpn 0) spoken hushed := by
  have htable : (spoken.tables root).isSome := by decide +kernel
  have hresult : (swapout 0 root 0).result spoken = some (some 0) := by decide +kernel
  obtain ⟨t, ht⟩ := Option.isSome_iff_exists.mp htable
  obtain ⟨l, hrun⟩ := run_of_result hresult
  unfold hushed
  exact swapout_swappedOut PageArray.reliable (by decide) ht hrun

end Family

/-- The string on the page that stayed is read as before. -/
theorem copyinstr_residency_iff_page :
    copyinstr Family.root 4096 8 Family.spoken = .ok ((0, [111, 107, 0]), Family.spoken, []) ∧
      copyinstr Family.root 4096 8 Family.hushed = .ok ((0, [111, 107, 0]), Family.hushed, []) := by
  obtain ⟨r, r', hr, hr', hiff⟩ := copyinstr_residency_iff Family.swappedOut 4096 8
  obtain rfl := hiff.mpr (by
    intro m hm _ hout
    have hpage : ∀ m < 8, vpn (4096 + m) ≠ vpn 0 := by decide
    exact absurd hout (hpage m hm))
  obtain ⟨t, ht⟩ := Family.swappedOut.table
  rw [copyinstr_run ht] at hr
  have hread : readString (Family.spoken.userByte Family.root) 8 4096 = (0, [111, 107, 0]) := by decide +kernel
  rw [hread] at hr
  cases hr
  exact ⟨by rw [copyinstr_run ht, hread], hr'⟩

/-- **The same string, before and after its page is evicted.** -/
theorem copyinstr_evicted :
    copyinstr Family.root 0 8 Family.spoken = .ok ((0, [104, 105, 0]), Family.spoken, []) ∧
      copyinstr Family.root 0 8 Family.hushed = .ok ((-1, []), Family.hushed, []) := by
  obtain ⟨t, ht⟩ := Family.swappedOut.table
  obtain ⟨t', ht'⟩ := Family.swappedOut.table'
  have hread : readString (Family.spoken.userByte Family.root) 8 0 = (0, [104, 105, 0]) := by decide +kernel
  exact ⟨by rw [copyinstr_run ht, hread],
    by rw [copyinstr_run ht', readString_none (Family.swappedOut.userByte_out rfl)]⟩

end Xv6
