import Mathlib.Tactic.IntervalCases
import Xv6.Param

/-!
# Sv39 addresses and page-table entries

The macros of `kernel/riscv.h`. A page-table entry is a 64-bit word: ten flag bits below, and above
them the physical page number of a valid entry. `swapout` reuses the upper part: an entry that has
`PTE_S` and not `PTE_V` holds the number of a swap slot there.

Addresses, virtual and physical, are natural numbers; `0` is the null pointer. A test `*pte & PTE_x`
of the source is the test of one bit, `e.getLsbD pteX`.
-/

namespace Xv6

open BitVec

abbrev Pte := BitVec 64

/-! Bit numbers: `PTE_V` is `1L << 0` and so on. The dirty bit has no name in `riscv.h`; the hardware
sets it together with `PTE_A` on a store. -/

def pteV : Nat := 0
def pteR : Nat := 1
def pteW : Nat := 2
def pteX : Nat := 3
def pteU : Nat := 4
def pteA : Nat := 6
def pteD : Nat := 7
def pteS : Nat := 8

/-- `1L << n`. -/
def bit (n : Nat) : Pte := BitVec.twoPow 64 n

/-- `PA2PTE`. -/
def pa2pte (pa : Nat) : Pte := (BitVec.ofNat 64 pa >>> 12) <<< 10

/-- `PTE2PA`. -/
def pte2pa (e : Pte) : Nat := ((e >>> 10) <<< 12).toNat

/-- `PTE_FLAGS`. -/
def pteFlags (e : Pte) : Pte := e &&& 0x3FF#64

/-- `(int)(pte >> 10)`, the swap slot of an entry with `PTE_S`. -/
def swapIdx (e : Pte) : Int := ((e >>> 10).setWidth 32).toInt

/-- `PGROUNDUP`, on addresses that do not wrap. -/
def pgroundup (sz : Nat) : Nat := (sz + pgsize - 1) / pgsize * pgsize

/-- `PGROUNDDOWN`. -/
def pgrounddown (a : Nat) : Nat := a / pgsize * pgsize

/-- `MAXVA`. -/
abbrev maxva : Nat := 2 ^ 38

/-- `TRAMPOLINE`. -/
abbrev trampoline : Nat := maxva - pgsize

/-- `TRAPFRAME`. -/
abbrev trapframe : Nat := trampoline - pgsize

/-- `KERNBASE`. -/
abbrev kernbase : Nat := 0x80000000

/-- `PHYSTOP`. -/
abbrev phystop : Nat := kernbase + 128 * 1024 * 1024

/-- `PX(level, va)`. -/
def px (level va : Nat) : Fin 512 :=
  ⟨va / 2 ^ (12 + 9 * level) % 512, Nat.mod_lt _ (by decide)⟩

/-! ## Virtual pages -/

/-- The three table indices of a virtual page. -/
structure Vpn where
  i₂ : Fin 512
  i₁ : Fin 512
  i₀ : Fin 512
  deriving DecidableEq

def vpn (va : Nat) : Vpn := ⟨px 2 va, px 1 va, px 0 va⟩

/-- The address of the first byte of a page. -/
def Vpn.addr (v : Vpn) : Nat := ((v.i₂ * 512 + v.i₁) * 512 + v.i₀) * pgsize

theorem vpn_addr (v : Vpn) : vpn v.addr = v := by
  obtain ⟨⟨a, ha⟩, ⟨b, hb⟩, ⟨c, hc⟩⟩ := v
  simp only [vpn, px, Vpn.addr, Vpn.mk.injEq, Fin.mk.injEq, pgsize]
  omega

theorem addr_vpn {va : Nat} (hal : va % pgsize = 0) (hlt : va < maxva) : (vpn va).addr = va := by
  have hva : va < 274877906944 := hlt
  simp only [vpn, px, Vpn.addr, pgsize, Nat.reduceMul, Nat.reduceAdd, Nat.reducePow] at *
  omega

/-- Different pages have different numbers. -/
theorem vpn_injective {va va' : Nat} (h : va % pgsize = 0) (h' : va' % pgsize = 0)
    (hlt : va < maxva) (hlt' : va' < maxva) (heq : vpn va = vpn va') : va = va' := by
  rw [← addr_vpn h hlt, ← addr_vpn h' hlt', heq]

theorem Vpn.addr_aligned (v : Vpn) : v.addr % pgsize = 0 := Nat.mul_mod_left _ _

/-- Only the page of an address matters to its indices. -/
theorem vpn_pgrounddown (va : Nat) : vpn (pgrounddown va) = vpn va := by
  simp only [vpn, px, pgrounddown, Vpn.mk.injEq, Fin.mk.injEq, pgsize]
  omega

theorem pgrounddown_aligned (va : Nat) : pgrounddown va % pgsize = 0 := Nat.mul_mod_left _ _

theorem pgroundup_aligned (va : Nat) : pgroundup va % pgsize = 0 := Nat.mul_mod_left _ _

theorem pgrounddown_le (va : Nat) : pgrounddown va ≤ va := Nat.div_mul_le_self _ _

theorem le_pgroundup (sz : Nat) : sz ≤ pgroundup sz := by
  simp only [pgroundup, pgsize]
  omega

/-! ## Entries -/

/-- The upper part of an entry. -/
abbrev upper (e : Pte) : Pte := e >>> 10

@[simp] theorem upper_or (a b : Pte) : upper (a ||| b) = upper a ||| upper b :=
  ushiftRight_or_distrib _ _ _

@[simp] theorem upper_and (a b : Pte) : upper (a &&& b) = upper a &&& upper b :=
  ushiftRight_and_distrib _ _ _

theorem upper_bit {n : Nat} (h : n < 10) : upper (bit n) = 0#64 := by
  apply eq_of_getLsbD_eq
  intro i _
  simp only [bit, getLsbD_ushiftRight, getLsbD_twoPow, getLsbD_zero,
    Bool.and_eq_false_imp, decide_eq_true_eq, decide_eq_false_iff_not]
  omega

theorem upper_and_not_bit (e : Pte) {n : Nat} (h : n < 10) :
    upper (e &&& ~~~ bit n) = upper e := by
  apply eq_of_getLsbD_eq
  intro i _
  have hne : ¬ n = 10 + i := by omega
  simp only [bit, getLsbD_ushiftRight, getLsbD_and, getLsbD_not,
    getLsbD_twoPow]
  by_cases hi : 10 + i < 64
  · simp [hi, hne]
  · simp [getLsbD_of_ge e (10 + i) (by omega)]

theorem upper_flags (e : Pte) : upper (pteFlags e) = 0#64 := by
  have h : upper (0x3FF#64) = 0#64 := by decide
  rw [pteFlags, upper_and, h, and_zero]

theorem upper_shiftLeft {x : Pte} (h : x.toNat < 2 ^ 54) : upper (x <<< 10) = x := by
  apply eq_of_toNat_eq
  have hx : x.toNat * 1024 < 2 ^ 64 := by omega
  simp only [toNat_ushiftRight, toNat_shiftLeft, Nat.shiftRight_eq_div_pow,
    Nat.shiftLeft_eq]
  omega

theorem getLsbD_shiftLeft_lt {x : Pte} {n : Nat} (h : n < 10) :
    (x <<< 10).getLsbD n = false := by
  simp [getLsbD_shiftLeft, h]

theorem getLsbD_flags {e : Pte} {n : Nat} (h : n < 10) :
    (pteFlags e).getLsbD n = e.getLsbD n := by
  have hmask : (0x3FF#64).getLsbD n = true := by
    interval_cases n <;> rfl
  simp [pteFlags, getLsbD_and, hmask]

theorem getLsbD_bit {m n : Nat} (h : n < 64) : (bit n).getLsbD m = decide (n = m) := by
  simp only [bit, getLsbD_twoPow]
  by_cases hnm : n = m
  · subst hnm
    simp [h]
  · simp [hnm]

theorem upper_or_bit (e : Pte) {n : Nat} (h : n < 10) : upper (e ||| bit n) = upper e := by
  rw [upper_or, upper_bit h, or_zero]

theorem getLsbD_or_bit {e : Pte} {m n : Nat} (h : n < 64) (hne : n ≠ m) :
    (e ||| bit n).getLsbD m = e.getLsbD m := by
  rw [getLsbD_or, getLsbD_bit h, decide_eq_false hne, Bool.or_false]

theorem getLsbD_and_not_bit {e : Pte} {m n : Nat} (h : m < 64) :
    (e &&& ~~~ bit n).getLsbD m = (e.getLsbD m && !decide (n = m)) := by
  simp only [getLsbD_and, getLsbD_not, h, decide_true, Bool.true_and, bit,
    getLsbD_twoPow]
  by_cases hnm : n = m
  · subst hnm
    simp [h]
  · simp [hnm]

/-- A physical page: aligned, and short enough for the page number of an entry. -/
theorem upper_pa2pte {pa : Nat} (hlt : pa < phystop) :
    upper (pa2pte pa) = BitVec.ofNat 64 pa >>> 12 := by
  apply upper_shiftLeft
  have hpa : pa < 2281701376 := hlt
  simp only [toNat_ushiftRight, toNat_ofNat, Nat.shiftRight_eq_div_pow]
  omega

theorem pte2pa_congr {e e' : Pte} (h : upper e = upper e') : pte2pa e = pte2pa e' := by
  unfold pte2pa
  rw [show e >>> 10 = e' >>> 10 from h]

/-- The page number of an entry built from a page gives the page back. -/
theorem pte2pa_of_upper {e : Pte} {pa : Nat} (hal : pa % pgsize = 0) (hlt : pa < phystop)
    (h : upper e = BitVec.ofNat 64 pa >>> 12) : pte2pa e = pa := by
  have hpa : pa < 2281701376 := hlt
  have hal' : pa % 4096 = 0 := hal
  have hround : pa % 2 ^ 64 / 2 ^ 12 * 2 ^ 12 % 2 ^ 64 = pa := by omega
  unfold pte2pa
  rw [show e >>> 10 = BitVec.ofNat 64 pa >>> 12 from h, toNat_shiftLeft,
    toNat_ushiftRight, toNat_ofNat, Nat.shiftRight_eq_div_pow, Nat.shiftLeft_eq]
  exact hround

/-! The three entries the kernel writes. -/

/-- `PA2PTE(pa) | perm | PTE_V`, as `mappages` writes it. -/
def mapEntry (pa : Nat) (perm : Pte) : Pte := pa2pte pa ||| perm ||| bit pteV

/-- `(swap_idx << 10) | PTE_S | (flags & ~PTE_V)`, as `swapout` writes it over `e`. -/
def swapEntry (slot : Nat) (e : Pte) : Pte :=
  (BitVec.ofNat 64 slot <<< 10) ||| bit pteS ||| (pteFlags e &&& ~~~ bit pteV)

/-- `PA2PTE(pa) | (PTE_FLAGS(e) & ~PTE_S) | PTE_V`, as `vmfault` writes it over `e`. -/
def swapInEntry (pa : Nat) (e : Pte) : Pte :=
  pa2pte pa ||| (pteFlags e &&& ~~~ bit pteS) ||| bit pteV

theorem mapEntry_valid (pa : Nat) (perm : Pte) : (mapEntry pa perm).getLsbD pteV = true := by
  simp only [mapEntry, getLsbD_or, getLsbD_bit (show pteV < 64 by decide), decide_true,
    Bool.or_true]

/-- The address is read back from the entry of `mappages`. -/
theorem pte2pa_mapEntry {pa : Nat} {perm : Pte} (hal : pa % pgsize = 0) (hlt : pa < phystop)
    (hperm : upper perm = 0#64) : pte2pa (mapEntry pa perm) = pa := by
  apply pte2pa_of_upper hal hlt
  rw [mapEntry, upper_or, upper_or, hperm, upper_bit (by decide), upper_pa2pte hlt]
  simp

/-- A flag other than `PTE_V` of a mapped entry is that of its permissions. -/
theorem mapEntry_flag (pa : Nat) (perm : Pte) {n : Nat} (h : n < 10) (hv : n ≠ pteV) :
    (mapEntry pa perm).getLsbD n = perm.getLsbD n := by
  have hne : ¬ pteV = n := fun h' => hv h'.symm
  simp only [mapEntry, pa2pte, getLsbD_or, getLsbD_shiftLeft_lt h,
    getLsbD_bit (show pteV < 64 by decide), hne, decide_false, Bool.false_or, Bool.or_false]

theorem swapEntry_not_valid (slot : Nat) (e : Pte) : (swapEntry slot e).getLsbD pteV = false := by
  simp only [swapEntry, getLsbD_or, getLsbD_shiftLeft_lt (show pteV < 10 by decide),
    getLsbD_bit (show pteS < 64 by decide), getLsbD_and_not_bit (show pteV < 64 by decide),
    decide_true, Bool.not_true, Bool.and_false, Bool.or_false, Bool.false_or]
  decide

theorem swapEntry_swapped (slot : Nat) (e : Pte) : (swapEntry slot e).getLsbD pteS = true := by
  simp only [swapEntry, getLsbD_or, getLsbD_bit (show pteS < 64 by decide), decide_true,
    Bool.or_true, Bool.true_or]

/-- The slot is read back from the entry of `swapout`. -/
theorem swapIdx_swapEntry {slot : Nat} (e : Pte) (h : slot < maxSwap) :
    swapIdx (swapEntry slot e) = slot := by
  have hs : slot < 16384 := h
  have hsmall : (BitVec.ofNat 64 slot).toNat < 2 ^ 54 := by
    rw [toNat_ofNat]
    omega
  have hup : upper (swapEntry slot e) = BitVec.ofNat 64 slot := by
    rw [swapEntry, upper_or, upper_or, upper_shiftLeft hsmall, upper_bit (by decide),
      upper_and_not_bit _ (by decide), upper_flags]
    simp
  unfold swapIdx
  rw [show swapEntry slot e >>> 10 = BitVec.ofNat 64 slot from hup]
  have hn : ((BitVec.ofNat 64 slot).setWidth 32).toNat = slot := by
    rw [toNat_setWidth, toNat_ofNat]
    omega
  rw [toInt_eq_toNat_cond, hn]
  rw [if_pos (by omega)]

/-- The permissions survive the swap. -/
theorem swapEntry_flag (slot : Nat) (e : Pte) {n : Nat} (h : n < 10) (hv : n ≠ pteV)
    (hs : n ≠ pteS) : (swapEntry slot e).getLsbD n = e.getLsbD n := by
  have hnev : ¬ pteV = n := fun h' => hv h'.symm
  have hnes : ¬ pteS = n := fun h' => hs h'.symm
  simp only [swapEntry, getLsbD_or, getLsbD_shiftLeft_lt h, getLsbD_flags h,
    getLsbD_bit (show pteS < 64 by decide), getLsbD_and_not_bit (show n < 64 by omega), hnev, hnes,
    decide_false, Bool.not_false, Bool.and_true, Bool.false_or]

theorem swapInEntry_valid (pa : Nat) (e : Pte) : (swapInEntry pa e).getLsbD pteV = true := by
  simp only [swapInEntry, getLsbD_or, getLsbD_bit (show pteV < 64 by decide), decide_true,
    Bool.or_true]

/-- The address is read back from the entry of a swap-in. -/
theorem pte2pa_swapInEntry {pa : Nat} (e : Pte) (hal : pa % pgsize = 0) (hlt : pa < phystop) :
    pte2pa (swapInEntry pa e) = pa := by
  apply pte2pa_of_upper hal hlt
  rw [swapInEntry, upper_or, upper_or, upper_bit (by decide), upper_and_not_bit _ (by decide),
    upper_flags, upper_pa2pte hlt]
  simp

theorem swapInEntry_flag (pa : Nat) (e : Pte) {n : Nat} (h : n < 10) (hv : n ≠ pteV)
    (hs : n ≠ pteS) : (swapInEntry pa e).getLsbD n = e.getLsbD n := by
  have hnev : ¬ pteV = n := fun h' => hv h'.symm
  have hnes : ¬ pteS = n := fun h' => hs h'.symm
  simp only [swapInEntry, pa2pte, getLsbD_or, getLsbD_shiftLeft_lt h, getLsbD_flags h,
    getLsbD_bit (show pteV < 64 by decide), getLsbD_and_not_bit (show n < 64 by omega), hnev, hnes,
    decide_false, Bool.not_false, Bool.and_true, Bool.false_or, Bool.or_false]

theorem swapInEntry_not_swapped (pa : Nat) (e : Pte) :
    (swapInEntry pa e).getLsbD pteS = false := by
  have hne : ¬ pteV = pteS := by decide
  have hlt : pteS < 10 := by decide
  simp only [swapInEntry, pa2pte, getLsbD_or, getLsbD_shiftLeft_lt hlt, getLsbD_flags hlt,
    getLsbD_bit (show pteV < 64 by decide), getLsbD_and_not_bit (show pteS < 64 by decide), hne,
    decide_true, decide_false, Bool.not_true, Bool.and_false, Bool.false_or]

/-- An empty entry names the null page. -/
theorem pte2pa_zero : pte2pa 0 = 0 := rfl

-- From here on entries are only taken apart by the lemmas above.
attribute [irreducible] pte2pa swapIdx mapEntry swapEntry swapInEntry

end Xv6
