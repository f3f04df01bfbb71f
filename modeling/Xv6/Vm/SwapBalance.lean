import Mathlib.Data.Fintype.Prod
import Xv6.Lib.Counting
import Xv6.Vm.CopySpec
import Xv6.Vm.ForkSpec
import Xv6.Vm.Unmap

/-!
# The swap counters of a process

Each page of a process that went out to swap came back, is still there, or was released by unmapping
it. `pages_swapped_out` and `pages_swapped_in` count the first two kinds of event, so the two differ by
the pages that are in swap now and those that were released. Both are `int`s that nothing stops at
their limit; the equation lasts until `pages_swapped_out` passes it.
-/

namespace Xv6

open Function Kernel

variable {D : Type} {k k' k'' : Kernel D} {r pt pa va lo hi n : Nat} {v : Vpn} {e e' : Pte} {p q : ProcId}

open TraceM

instance : Fintype Vpn :=
  Fintype.ofEquiv (Fin 512 × Fin 512 × Fin 512)
    ⟨fun t => ⟨t.1, t.2.1, t.2.2⟩, fun v => (v.i₂, v.i₁, v.i₀), fun _ => rfl, fun _ => rfl⟩

/-! ## Pages in swap -/

/-- The pages of the table `r` that are in swap. -/
@[irreducible] def Kernel.away (k : Kernel D) (r : Nat) : Finset Vpn :=
  Finset.univ.filter fun v => (k.tables.entry r v).any (fun e => Away e)

theorem Kernel.mem_away : v ∈ k.away r ↔ ∃ e, k.tables.entry r v = some e ∧ Away e := by
  unfold Kernel.away
  simp [Option.any_eq_true]

theorem Kernel.away_congr (h : ∀ v, k'.tables.entry r v = k.tables.entry r v) : k'.away r = k.away r := by
  ext v
  rw [mem_away, mem_away, h]

/-- Writing an entry changes the number of pages in swap by what the old and the new entry say. -/
theorem Kernel.card_away_setEntry (he : k.tables.entry r v = some e)
    (htab : k'.tables = k.tables.setEntry r v e') :
    (k'.away r).card + (if Away e then 1 else 0) = (k.away r).card + if Away e' then 1 else 0 := by
  have hrow : k'.tables.entry r = update (k.tables.entry r) v (some e') := by
    funext w
    rw [htab, Tables.entry_setEntry]
    by_cases hw : w = v
    · rw [if_pos ⟨rfl, hw⟩, hw, he, update_self]
      rfl
    · rw [if_neg fun hf => hw hf.2, update_of_ne hw]
  have hcount := Counting.card_filter_update (fun o : Option Pte => o.any (fun e => Away e) = true)
    (k.tables.entry r) v (some e')
  rw [he] at hcount
  unfold Kernel.away
  simpa [hrow] using hcount

theorem Kernel.away_setEntry_of_ne {r' : Nat} (hr : r ≠ r') (htab : k'.tables = k.tables.setEntry r' v e') :
    k'.away r = k.away r := by
  apply away_congr
  intro w
  rw [htab, Tables.entry_setEntry, if_neg fun hf => hr hf.1]

theorem Still.away (h : Still k k') (r : Nat) : k'.away r = k.away r := by
  ext v
  rw [mem_away, mem_away]
  constructor
  · rintro ⟨e', he', ha⟩
    by_contra hnot
    -- a page that is not in swap before is resident or not there at all
    cases he : k.tables.entry r v with
    | none =>
      have hh : k.tables.Hollow r v := fun e hf => by rw [he] at hf; cases hf
      exact h.hollow hh e' he' ha.present
    | some e =>
      by_cases hp : Present e
      · obtain ⟨e₁, he₁, hA⟩ := h.present he hp
        rw [he'] at he₁
        cases he₁
        exact hnot ⟨e, he, (away_of_withoutA hA).mp ha⟩
      · have hh : k.tables.Hollow r v := fun e₁ hf => by
          rw [he] at hf
          cases hf
          exact hp
        exact h.hollow hh e' he' ha.present
  · rintro ⟨e, he, ha⟩
    obtain ⟨e', he', hA⟩ := h.present he ha.present
    exact ⟨e', he', (away_of_withoutA hA).mpr ha⟩

/-! ## Accounts -/

/-- The process `p` alone has the page table `r`, and its counters differ by the pages in swap and `n`
more. -/
structure Kernel.Accounts (k : Kernel D) (p : ProcId) (r n : Nat) : Prop where
  table : (k.swaps p).pagetable = r
  alone : ∀ q, (k.swaps q).pagetable = r → q = p
  balance : (k.swaps p).swappedOut.toInt = (k.swaps p).swappedIn.toInt + (k.away r).card + n

theorem Kernel.Accounts.congr (h : k.Accounts p r n) (hswaps : k'.swaps = k.swaps)
    (haway : k'.away r = k.away r) : k'.Accounts p r n := by
  refine ⟨?_, ?_, ?_⟩
  · rw [hswaps]
    exact h.table
  · rw [hswaps]
    exact h.alone
  · rw [hswaps, haway]
    exact h.balance

/-- The counter of the process that loses its page is not at its limit. -/
def Eviction.Room (w : Eviction D) : Prop :=
  ∀ p, (w.before.frametable w.entry).proc = some p →
    (w.before.proc p).pagesSwappedOut.toInt + 1 < 2 ^ 31

/-- An eviction is fine if it can be counted. -/
def tally : Watch Panic (Eviction D) := ⟨Eviction.Room, fun w => ¬ w.Room, fun _ => True, fun _ _ => trivial⟩

theorem tally_lax : (tally : Watch Panic (Eviction D)).Lax := ⟨fun _ => trivial, fun _ => Classical.em _⟩

theorem Move.IsOut.room {c : Int32} (h : Move.IsOut (D := D) tally (.out p r v c)) : c.toInt + 1 < 2 ^ 31 := by
  cases h with
  | out hw hp r v => exact hw _ hp

theorem not_away_of_valid (hV : e.getLsbD pteV = true) : ¬ Away e := by
  intro ha
  rw [ha.1] at hV
  cases hV

/-- A move charges only a process with the table that it is about. -/
theorem Move.charge_of_ne {c : ProcId → Swaps} {m : Move} (hfits : m.Fits c) (hr : r ≠ m.table)
    (hp : (c p).pagetable = r) : m.charge c p = c p := by
  cases m with
  | out q r' v n =>
    refine update_of_ne ?_ _ _
    rintro rfl
    exact hr (hp.symm.trans hfits.1)
  | back q r' v =>
    refine update_of_ne ?_ _ _
    rintro rfl
    exact hr (hp.symm.trans hfits)
  | fill => rfl
  | clear => rfl
  | release => rfl

/-- **A move keeps the accounts** of a process if it is counted and releases no page of its table. -/
theorem Kernel.Accounts.move {m : Move} (h : k.Accounts p r n) (hm : m.Within (D := D) tally (· ≠ r))
    (hs : MoveStep k (some m) k') : k'.Accounts p r n := by
  cases hs with
  | @move _ _ e e' hfits he hw htab hswaps =>
    have htable : (k'.swaps p).pagetable = r := by
      rw [hswaps, Move.charge_pagetable]
      exact h.table
    have halone : ∀ q, (k'.swaps q).pagetable = r → q = p := by
      intro q hq
      rw [hswaps, Move.charge_pagetable] at hq
      exact h.alone q hq
    refine ⟨htable, halone, ?_⟩
    have hbal := h.balance
    by_cases hr : r = m.table
    · subst hr
      have hcard := card_away_setEntry he htab
      cases hw with
      | @out q r' v c _ s hV =>
        obtain ⟨hq, rfl⟩ := hfits
        obtain rfl : q = p := h.alone q hq
        rw [if_neg (not_away_of_valid hV), if_pos (swapEntry_away s e)] at hcard
        have hroom := hm.room
        rw [hswaps]
        simp only [Move.charge, update_self, Counting.toInt_succ hroom]
        omega
      | @back q r' v _ pa ha =>
        obtain rfl : q = p := h.alone q hfits
        rw [if_pos ha, if_neg (not_away_of_valid (swapInEntry_valid pa e))] at hcard
        have hlim := (k.swaps q).swappedOut.toInt_lt
        have hroom : ((k.swaps q).swappedIn).toInt + 1 < 2 ^ 31 := by omega
        rw [hswaps]
        simp only [Move.charge, update_self, Counting.toInt_succ hroom]
        omega
      | fill hh hV =>
        rw [if_neg fun ha => hh (Away.present ha), if_neg (not_away_of_valid hV)] at hcard
        rw [hswaps]
        simp only [Move.charge]
        omega
      | clear ha => exact absurd rfl hm
      | release ha => exact absurd rfl hm
    · rw [hswaps, Move.charge_of_ne hfits hr h.table, away_setEntry_of_ne hr htab]
      exact hbal

theorem Move.Within.mono {W : Watch Panic (Eviction D)} {R R' : Nat → Prop} {m : Move} (h : m.Within W R)
    (hR : ∀ r, R r → R' r) : m.Within W R' := by
  cases m with
  | out p r v n => exact h
  | back => trivial
  | fill => trivial
  | clear r v => exact hR r h
  | release r v => exact hR r h

/-- **Any sequence of counted moves keeps the accounts**, as long as no page of the table is released. -/
theorem Kernel.Accounts.moves {S : Move → Prop} (h : k.Accounts p r n) (hmoves : Moves S k k')
    (hS : ∀ m, S m → m.Within (D := D) tally (· ≠ r)) : k'.Accounts p r n := by
  refine hmoves.invariant (I := fun k => k.Accounts p r n) h ?_ ?_
  · intro k k' hI hs
    exact hI.congr hs.swaps (hs.away r)
  · intro k m k' hI hm hs
    exact hI.move (hS m hm) hs

/-! ## Releases -/

/-- The pages of the table `r` that are in swap between two addresses. -/
def Kernel.awayIn (k : Kernel D) (r lo hi : Nat) : Finset Vpn :=
  (k.away r).filter fun v => lo ≤ v.addr ∧ v.addr < hi

/-- The pages of the table `r` between two addresses are in swap no more. -/
structure Released (r lo hi : Nat) (k k' : Kernel D) : Prop where
  swaps : k'.swaps = k.swaps
  here : ∀ v, v ∈ k'.away r ↔ v ∈ k.away r ∧ ¬ (lo ≤ v.addr ∧ v.addr < hi)
  others : ∀ r', r' ≠ r → k'.away r' = k.away r'

namespace Released

theorem of_le (h : hi ≤ lo) : Released r lo hi k k :=
  ⟨rfl, fun v => ⟨fun hv => ⟨hv, by omega⟩, And.left⟩, fun _ _ => rfl⟩

/-- Zeroing one entry. -/
theorem zero (h : Unmoved k k') (hal : lo % pgsize = 0) (hlo : lo < maxva) :
    Released r lo (lo + pgsize) k (k'.setEntry r (vpn lo) 0) := by
  refine ⟨h.swaps, ?_, ?_⟩
  · intro v
    have hv : (lo ≤ v.addr ∧ v.addr < lo + pgsize) ↔ v = vpn lo := by
      have hone := inRange_succ (n := 0) (v := v) hal hlo
      unfold InRange at hone
      rw [zero_add, one_mul] at hone
      rw [hone]
      exact ⟨fun hf => hf.resolve_right (by omega), Or.inl⟩
    rw [hv, mem_away, mem_away, setEntry_tables, Tables.entry_setEntry, h.tables]
    by_cases hw : v = vpn lo
    · rw [if_pos ⟨rfl, hw⟩]
      refine ⟨?_, fun hf => absurd hw hf.2⟩
      rintro ⟨e, he, ha⟩
      obtain ⟨-, -, rfl⟩ := Option.map_eq_some_iff.mp he
      exact absurd ha.present not_present_zero
    · rw [if_neg fun hf => hw hf.2]
      exact ⟨fun hf => ⟨hf, hw⟩, And.left⟩
  · intro r' hr'
    apply away_congr
    intro w
    rw [setEntry_tables, Tables.entry_setEntry, if_neg fun hf => hr' hf.1, h.tables]

theorem trans {mid : Nat} (h : Released r lo mid k k') (h' : Released r mid hi k' k'') (hlo : lo ≤ mid)
    (hhi : mid ≤ hi) : Released r lo hi k k'' := by
  refine ⟨h'.swaps.trans h.swaps, ?_, fun r' hr' => (h'.others r' hr').trans (h.others r' hr')⟩
  intro v
  rw [h'.here, h.here, and_assoc]
  exact and_congr_right fun _ => by omega

/-- **What a process has released is what its counters miss.** -/
theorem accounts (h : Released r lo hi k k') (hk : k.Accounts p r n) :
    k'.Accounts p r (n + (k.awayIn r lo hi).card) := by
  refine ⟨?_, ?_, ?_⟩
  · rw [h.swaps]
    exact hk.table
  · rw [h.swaps]
    exact hk.alone
  · have hsplit := Finset.card_filter_add_card_filter_not (s := k.away r) fun v => lo ≤ v.addr ∧ v.addr < hi
    have hrest : (k.away r).filter (fun v => ¬ (lo ≤ v.addr ∧ v.addr < hi)) = k'.away r := by
      ext v
      rw [Finset.mem_filter, h.here]
    rw [hrest] at hsplit
    have hbal := hk.balance
    rw [h.swaps]
    unfold Kernel.awayIn
    omega

theorem accounts_of_ne {r' : Nat} (h : Released r lo hi k k') (hr : r' ≠ r) (hk : k.Accounts p r' n) :
    k'.Accounts p r' n := hk.congr h.swaps (h.others r' hr)

end Released

section Unmap

variable [SwapStore D] {W : Watch Panic (Eviction D)} (hW : W.Lax)

include hW

/-- Unmapping a page takes it out of swap. -/
theorem uvmunmapPage_releases {a : Nat} (hal : a % pgsize = 0) (ha : a < maxva) (doFree : Bool) :
    Sat W (uvmunmapPage ⟨r, vpn a⟩ doFree) (fun _ k' => Released r a (a + pgsize) k k') k := by
  unfold uvmunmapPage
  apply deref_sat hW
  intro e _
  split
  · apply Sat.seq
    apply (swapFree_unmoved _).mono
    exact fun _ k₁ h₁ => Sat.of_ok (assign_run _ _) (.zero h₁ hal ha)
  · split
    · apply Sat.seq
      apply (frametablefree_unmoved hW _).mono
      intro _ k₁ h₁
      apply Sat.seq
      apply (kfree_unmoved hW _).mono
      exact fun _ k₂ h₂ => Sat.of_ok (assign_run _ _) (.zero (h₁.trans h₂) hal ha)
    · exact Sat.of_ok (assign_run _ _) (.zero ⟨rfl, rfl⟩ hal ha)

theorem uvmunmapLoop_releases (doFree : Bool) (n : Nat) : ∀ {k : Kernel D} {a : Nat}, a % pgsize = 0 →
    Sat W (uvmunmapLoop r doFree n a) (fun _ k' => Released r a (a + n * pgsize) k k') k := by
  induction n with
  | zero =>
    intro k a _
    exact Sat.ret (.of_le (by omega))
  | succ n ih =>
    intro k a hal
    have hrest : ∀ {k₁ : Kernel D}, Released r a (a + pgsize) k k₁ →
        Sat W (uvmunmapLoop r doFree n (a + pgsize)) (fun _ k' => Released r a (a + (n + 1) * pgsize) k k') k₁ := by
      intro k₁ h₁
      apply (ih (by unfold pgsize at *; omega)).mono
      intro _ k₂ h₂
      rw [Nat.add_assoc, Nat.add_comm pgsize, ← Nat.succ_mul] at h₂
      exact h₁.trans h₂ (by omega) (by unfold pgsize; omega)
    unfold uvmunmapLoop uvmunmapTurn
    apply Sat.seq
    apply walk_sat (.inr (hW.allowed _)) (.inr (hW.allowed _))
    intro t ha ht
    cases he : k.tables.entry r (vpn a) with
    | none =>
      apply Sat.ret
      apply hrest
      -- there is no entry to zero, and none that could be in swap
      have h0 := Released.zero (r := r) (k := k) ⟨rfl, rfl⟩ hal ha
      refine ⟨rfl, fun v => ?_, fun _ _ => rfl⟩
      rw [← h0.here]
      simp only [mem_away, setEntry_tables, Tables.entry_setEntry]
      by_cases hv : v = vpn a
      · rw [if_pos ⟨trivial, hv⟩, hv, he]
        rfl
      · rw [if_neg fun hf => hv hf.2]
    | some e => exact (uvmunmapPage_releases hW hal ha doFree).mono fun _ k₁ h₁ => hrest h₁

/-- `uvmunmap` takes its pages out of swap, uncounted. -/
theorem uvmunmap_releases (a n : Nat) (doFree : Bool) :
    Sat W (uvmunmap r a n doFree) (fun _ k' => Released r a (a + n * pgsize) k k') k := by
  unfold uvmunmap
  by_cases hal : a % pgsize = 0
  · rw [if_neg (not_not.mpr hal)]
    exact uvmunmapLoop_releases hW doFree n hal
  · rw [if_pos hal]
    exact Sat.panic (hW.allowed _)

theorem uvmdealloc_releases (oldsz newsz : Nat) :
    Sat W (uvmdealloc r oldsz newsz) (fun _ k' => Released r (pgroundup newsz) (pgroundup oldsz) k k') k := by
  unfold uvmdealloc
  by_cases hle : oldsz ≤ newsz
  · rw [if_pos hle]
    exact Sat.ret (.of_le (pgroundup_mono hle))
  · rw [if_neg hle]
    split
    · next hlt =>
        apply Sat.seq
        apply (uvmunmap_releases hW _ _ true).mono
        intro _ k₁ h₁
        have hnew := pgroundup_aligned newsz
        have hold := pgroundup_aligned oldsz
        have hend : pgroundup newsz + (pgroundup oldsz - pgroundup newsz) / pgsize * pgsize = pgroundup oldsz := by
          unfold pgsize at *
          omega
        rw [hend] at h₁
        exact Sat.ret h₁
    · next hlt => exact Sat.ret (.of_le (Nat.not_lt.mp hlt))

end Unmap

/-! ## Growing -/

section Grow

variable [SwapStore D] {W : Watch Panic (Eviction D)} (hW : W.Lax) (me : ProcId)

/-- The loop of `uvmalloc` up to the point where memory runs out: the page it did not get, if any. -/
def uvmallocFill (me : ProcId) (pt : Nat) (xperm : Pte) : Nat → Nat → KM D (Option Nat)
  | 0, _ => return none
  | n + 1, a => do
    let mem ← getFrame me
    if mem = 0 then return some a
    modify fun k => k.setMem mem (junk 0)
    if (← mappages me pt a pgsize mem (bit pteR ||| bit pteU ||| xperm)) ≠ 0 then
      kfree mem
      return some a
    frametableAlloc me mem me a
    uvmallocFill me pt xperm n (a + pgsize)

/-- What `uvmalloc` does after that. -/
def uvmallocEnd (pt oldsz newsz : Nat) : Option Nat → KM D Nat
  | none => return newsz
  | some a => do
    let _ ← uvmdealloc pt a oldsz
    return 0

theorem uvmallocFill_succ (xperm : Pte) (n a : Nat) : uvmallocFill (D := D) me pt xperm (n + 1) a =
    growPage me pt a xperm >>= fun ok =>
      if ok then uvmallocFill me pt xperm n (a + pgsize) else return some a := by
  rw [growPage_bind]
  rfl

theorem uvmallocLoop_eq (oldsz newsz : Nat) (xperm : Pte) (n : Nat) : ∀ a : Nat,
    uvmallocLoop (D := D) me pt oldsz newsz xperm n a =
      uvmallocFill me pt xperm n a >>= uvmallocEnd pt oldsz newsz := by
  induction n with
  | zero => exact fun _ => rfl
  | succ n ih =>
    intro a
    rw [uvmallocLoop_succ, uvmallocFill_succ, TraceM.bind_assoc]
    congr 1
    funext ok
    split
    · exact ih _
    · rw [TraceM.pure_bind]
      rfl

include hW

/-- Growing moves no page of another kind than filling empty ones. -/
theorem uvmallocFill_moves (xperm : Pte) (n : Nat) : ∀ {k : Kernel D} {a : Nat},
    (∀ v, ¬ Special v → a ≤ v.addr → k.tables.Hollow r v) → a % pgsize = 0 → a + n * pgsize ≤ trapframe →
    Sat W (uvmallocFill me r xperm n a) (fun _ k' => Moves (Move.Within W fun _ => False) k k') k := by
  induction n with
  | zero => exact fun _ _ _ => Sat.ret .refl
  | succ n ih =>
    intro k a hh hal hlim
    have hlt : a < trapframe := by
      unfold pgsize at hlim
      omega
    have haddr := addr_vpn hal (lt_trans hlt (by decide))
    rw [uvmallocFill_succ]
    apply Sat.seq
    unfold growPage
    apply (getFrame_fill_moves hW me _ _ _ (hh _ (not_special_of_lt hal hlt) haddr.ge)).mono
    intro ok k₁ h₁
    have hfill : Moves (Move.Within W fun _ => False) k k₁ := by
      refine h₁.mono ?_
      rintro m (hm | rfl)
      · exact hm.within
      · trivial
    split
    · have hh₁ : ∀ v, ¬ Special v → a + pgsize ≤ v.addr → k₁.tables.Hollow r v := by
        intro v hv ha
        refine h₁.hollow ?_ (hh v hv (by omega))
        rintro (hf | hf)
        · cases hf
        · cases hf
          rw [haddr] at ha
          unfold pgsize at ha
          omega
      apply (ih hh₁ (by unfold pgsize at *; omega) (by unfold pgsize at *; omega)).mono
      exact fun _ k₂ h₂ => hfill.trans h₂
    · exact Sat.ret hfill

omit hW

/-- The pages in swap that `growproc` releases: those beyond the new size, or, when memory runs out, those
of the pages it got that went out to swap meanwhile. -/
def growprocReleased (me : ProcId) (n : Int32) (k : Kernel D) : Nat :=
  let q := k.proc me
  let newsz := add64 q.sz n
  if 0 < n then
    if trapframe < newsz then 0
    else
      let oldsz := pgroundup q.sz
      let fill := uvmallocFill me q.pagetable (bit pteW) ((pgroundup newsz - oldsz) / pgsize) oldsz
      match fill.result k with
      | some (some a) => ((fill.after k).awayIn q.pagetable (pgroundup oldsz) (pgroundup a)).card
      | _ => 0
  else if n < 0 then (k.awayIn q.pagetable (pgroundup newsz) (pgroundup q.sz)).card
  else 0

omit [SwapStore D] in
/-- The process `me` released `m` pages, and no other process released any. -/
structure Shifts (me : ProcId) (m : Nat) (k k' : Kernel D) : Prop where
  pagetable : ∀ q, (k'.proc q).pagetable = (k.proc q).pagetable
  accounts : ∀ p r n, k.Accounts p r n → k'.Accounts p r (n + if p = me then m else 0)

namespace Shifts

omit [SwapStore D]

variable {me : ProcId} {m : Nat}

theorem of_moves (h : Moves (Move.Within (D := D) tally fun _ => False) k k') : Shifts me 0 k k' := by
  refine ⟨h.pagetable, fun p r n hp => ?_⟩
  rw [ite_self]
  exact hp.moves h fun m hm => hm.mono fun _ => False.elim

theorem refl : Shifts me 0 k k := of_moves .refl

theorem release (h : Shifts me 0 k k') (hrel : Released (k.proc me).pagetable lo hi k' k'') :
    Shifts me (k'.awayIn (k.proc me).pagetable lo hi).card k k'' := by
  refine ⟨fun q => ?_, fun p r n hp => ?_⟩
  · exact (congrArg Swaps.pagetable (congrFun hrel.swaps q)).trans (h.pagetable q)
  · have hp' := h.accounts p r n hp
    rw [ite_self] at hp'
    by_cases hpm : p = me
    · subst hpm
      obtain rfl : (k.proc p).pagetable = r := hp.table
      rw [if_pos rfl]
      exact hrel.accounts hp'
    · rw [if_neg hpm]
      refine hrel.accounts_of_ne ?_ hp'
      rintro rfl
      exact hpm (hp.alone me rfl).symm

theorem updProc {f : Proc → Proc} (h : Shifts me m k k') (hf : ∀ q : Proc, (f q).swaps = q.swaps) :
    Shifts me m k (k'.updProc p f) := by
  have hswaps := swaps_updProc_of_eq (k := k') (p := p) hf
  refine ⟨fun q => ?_, fun p r n hp => ?_⟩
  · exact (congrArg Swaps.pagetable (congrFun hswaps q)).trans (h.pagetable q)
  · exact (h.accounts p r n hp).congr hswaps (away_congr fun _ => rfl)

end Shifts

/-- **`growproc`** keeps the accounts of all processes, its own up to what it released. -/
theorem growproc_shifts (h : Consistent k) (hme : (k.proc me).state ≠ .unused) (i : Int32) :
    Sat tally (growproc me i) (fun _ k' => Shifts me (growprocReleased me i k) k k') k := by
  have hspace := h.spaces.each me
  have hpt := h.live me hme
  unfold growproc
  apply Sat.seq_get
  unfold growprocReleased
  dsimp only
  by_cases hpos : 0 < i
  · simp only [if_pos hpos]
    by_cases hbig : trapframe < add64 (k.proc me).sz i
    · simp only [if_pos hbig]
      exact Sat.ret .refl
    · simp only [if_neg hbig]
      set newsz := add64 (k.proc me).sz i
      set fill := uvmallocFill (D := D) me (k.proc me).pagetable (bit pteW)
        ((pgroundup newsz - pgroundup (k.proc me).sz) / pgsize) (pgroundup (k.proc me).sz) with hfill
      suffices hgrow : Sat tally (uvmalloc me (k.proc me).pagetable (k.proc me).sz newsz (bit pteW))
          (fun _ k' => Shifts me (match fill.result k with
            | some (some a) => ((fill.after k).awayIn (k.proc me).pagetable (pgroundup (pgroundup (k.proc me).sz))
                (pgroundup a)).card
            | _ => 0) k k') k by
        apply Sat.seq
        apply hgrow.mono
        intro sz k₁ h₁
        split
        · exact Sat.ret h₁
        · apply Sat.seq_update
          exact Sat.ret (h₁.updProc fun _ => rfl)
      unfold uvmalloc
      by_cases hlt : newsz < (k.proc me).sz
      · rw [if_pos hlt]
        have hzero : pgroundup newsz - pgroundup (k.proc me).sz = 0 :=
          Nat.sub_eq_zero_of_le (pgroundup_mono hlt.le)
        rw [hzero] at hfill
        apply Sat.ret
        rw [hfill]
        exact .refl
      · rw [if_neg hlt]
        dsimp only
        rw [uvmallocLoop_eq, ← hfill]
        apply Sat.seq
        have hlim : pgroundup (k.proc me).sz + (pgroundup newsz - pgroundup (k.proc me).sz) / pgsize * pgsize ≤
            trapframe := by
          have hnew := pgroundup_le (Nat.not_lt.mp hbig)
          have hold := pgroundup_le hspace.size
          unfold pgsize at *
          omega
        apply ((uvmallocFill_moves tally_lax me (bit pteW) _
          (fun v hv ha => (hspace.above hpt v hv ha).hollow) (pgroundup_aligned _) hlim).and (.ends fill k)).mono
        rintro res k₁ ⟨hmoves, hres, hafter⟩
        rw [hres, hafter]
        cases res with
        | none => exact Sat.ret (.of_moves hmoves)
        | some a =>
          unfold uvmallocEnd
          apply Sat.seq
          apply (uvmdealloc_releases tally_lax a _).mono
          exact fun _ k₂ h₂ => Sat.ret ((Shifts.of_moves hmoves).release h₂)
  · simp only [if_neg hpos]
    by_cases hneg : i < 0
    · simp only [if_pos hneg]
      apply Sat.seq
      apply (uvmdealloc_releases tally_lax _ _).mono
      intro sz k₁ h₁
      apply Sat.seq_update
      exact Sat.ret ((Shifts.refl.release h₁).updProc fun _ => rfl)
    · simp only [if_neg hneg]
      exact Sat.ret .refl

end Grow

end Xv6
