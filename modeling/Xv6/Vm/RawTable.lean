import Mathlib.Data.List.Nodup
import Xv6.Lib.PanicState
import Xv6.Lib.RadixTree
import Xv6.Vm.PageTable

/-!
# Page tables as they lie in memory

`walk` and `mappages` of `kernel/vm.c` over plain memory: a table is the address of its page, an
interior entry is a word that names another page, and `walk` follows pointers. The rest of the
development works with the trees of `Vm/PageTable.lean`, in which a page cannot be shared by
construction; here that has to be said (`IsTable`) and shown to be kept.

The memory is a function from the addresses of 64-bit words. `kalloc` is a supply of pages: which page
comes next, and whether one comes at all, is open. The result is that a table *is a map* from pages
to entries and that `mappages` is an update of that map.
-/

namespace Xv6.Raw

open Function

/-- Physical memory, and the pages `kalloc` will return. -/
structure Memory where
  word : Nat → Pte
  free : List Nat

abbrev MemM := PanicM Panic Memory

/-! ## The source -/

/-- `kalloc()`. -/
def kalloc : MemM Nat := do
  let m ← get
  match m.free with
  | [] => return 0
  | page :: free =>
    set { m with free := free }
    return page

/-- `memset(page, 0, PGSIZE)`. -/
def Memory.zeroed (m : Memory) (page : Nat) : Memory :=
  { m with word := fun a => if page ≤ a ∧ a < page + pgsize then 0 else m.word a }

/-- `*pte = e`. -/
def Memory.store (m : Memory) (pte : Nat) (e : Pte) : Memory :=
  { m with word := update m.word pte e }

/-- `&pagetable[i]`. -/
def slot (pagetable : Nat) (i : Fin 512) : Nat := pagetable + 8 * i

/-- The loop of `walk`, from `level` down. -/
def walkLoop (va : Nat) (alloc : Bool) : Nat → Nat → MemM Nat
  | 0, pagetable => return slot pagetable (px 0 va)
  | level + 1, pagetable => do
      let m ← get
      let pte := slot pagetable (px (level + 1) va)
      if (m.word pte).getLsbD pteV then
        walkLoop va alloc level (pte2pa (m.word pte))
      else if alloc then
        let page ← kalloc
        if page = 0 then
          return 0
        else
          modify fun m => (m.zeroed page).store pte (pa2pte page ||| bit pteV)
          walkLoop va alloc level page
      else
        return 0

/-- `walk(pagetable, va, alloc)`. -/
def walk (pagetable va : Nat) (alloc : Bool) : MemM Nat :=
  if maxva ≤ va then throw .walk else walkLoop va alloc 2 pagetable

/-- The loop of `mappages`. It ends because `walk` panics at `MAXVA`. -/
def mappagesLoop (pagetable last : Nat) (perm : Pte) (a pa : Nat) : MemM Int :=
  if _h : a < maxva then do
    let pte ← walk pagetable a true
    if pte = 0 then
      return -1
    else
      let m ← get
      if (m.word pte).getLsbD pteV then
        throw .mappagesRemap
      else
        modify fun m => m.store pte (mapEntry pa perm)
        if a = last then
          return 0
        else
          mappagesLoop pagetable last perm (a + pgsize) (pa + pgsize)
  else
    throw .walk
termination_by maxva - a
decreasing_by exact Nat.sub_lt_sub_left _h (Nat.lt_add_of_pos_right (by decide))

/-- `perm` is an `int`; `|` widens it with its sign. -/
def permBits (perm : Int32) : Pte := perm.toBitVec.signExtend 64

/-- `mappages(pagetable, va, size, pa, perm)`. Sums of `pa` wrap in `PA2PTE`. -/
def mappages (pagetable va size pa : Nat) (perm : Int32) : MemM Int :=
  if va % pgsize ≠ 0 then throw .mappagesVa
  else if size % pgsize ≠ 0 then throw .mappagesSizeAligned
  else if size = 0 then throw .mappagesSize
  else mappagesLoop pagetable (va + size - pgsize) (permBits perm) va pa

/-- The entry `walk(pagetable, va, 0)` finds, if it finds one. -/
def entry (m : Memory) (pagetable va : Nat) : Option Pte :=
  match walk pagetable va false m with
  | .ok (pte, m') => if pte = 0 then none else some (m'.word pte)
  | .error _ => none

/-! ## Tables as radix trees -/

theorem pte2pa_aligned (e : Pte) : pte2pa e % pgsize = 0 := by
  unfold pte2pa
  rw [BitVec.toNat_shiftLeft, Nat.shiftLeft_eq]
  show _ % 4096 = 0
  omega

def IsPage (page : Nat) : Prop := page % pgsize = 0

def layout : RadixLayout Nat Nat (Fin 512) Pte where
  slot := slot
  next e := if e.getLsbD pteV then some (pte2pa e) else none
  IsPage := IsPage
  slot_injective := by
    intro p p' i i' hp hp' heq
    have hp : p % 4096 = 0 := hp
    have hp' : p' % 4096 = 0 := hp'
    have heq : p + 8 * i.val = p' + 8 * i'.val := heq
    have hi := i.isLt
    have hi' := i'.isLt
    refine ⟨by omega, Fin.ext (by omega)⟩
  isPage_of_next := by
    intro e p h
    split at h
    · cases h
      exact pte2pa_aligned e
    · cases h

/-- The indices of `va` above `level`: the path to the table page `walk` looks at there. -/
def pathTo (va : Nat) : Nat → List (Fin 512)
  | 0 => [px 1 va, px 2 va]
  | 1 => [px 2 va]
  | _ => []

theorem pathTo_eq_cons (va : Nat) {level : Nat} (h : level < 2) :
    pathTo va level = px (level + 1) va :: pathTo va (level + 1) := by
  rcases level with _ | _ | level
  · rfl
  · rfl
  · omega

theorem length_pathTo (va : Nat) {level : Nat} (h : level ≤ 2) :
    (pathTo va level).length = 2 - level := by
  rcases level with _ | _ | _ | level
  · rfl
  · rfl
  · rfl
  · omega

/-- The pages under `root` form a tree of three levels, and the null pointer is none of them. -/
structure IsTable (m : Memory) (root : Nat) : Prop where
  tree : layout.IsTree m.word root 2
  nonnull : layout.Unreached m.word root 2 0

/-- What `kalloc` returns are pages, and none of them is in use in the table. -/
structure Supply (m : Memory) (root : Nat) : Prop where
  nodup : m.free.Nodup
  isPage : ∀ p ∈ m.free, p % pgsize = 0 ∧ p ≠ 0 ∧ p < 2 ^ 64
  unreached : ∀ p ∈ m.free, layout.Unreached m.word root 2 p

/-- The leaf entry of an address, by its path. -/
def leaf (m : Memory) (root va : Nat) : Option Pte :=
  layout.lookup m.word root (pathTo va 0) (px 0 va)

/-- An entry unchanged, or absent before and zero now. -/
def Kept (o o' : Option Pte) : Prop := o' = o ∨ o = none ∧ o' = some 0

theorem Kept.refl (o : Option Pte) : Kept o o := .inl rfl

theorem Kept.trans {o₁ o₂ o₃ : Option Pte} (h : Kept o₁ o₂) (h' : Kept o₂ o₃) : Kept o₁ o₃ := by
  rcases h with rfl | ⟨rfl, rfl⟩
  · exact h'
  · rcases h' with rfl | ⟨h', -⟩
    · exact .inr ⟨rfl, rfl⟩
    · cases h'

theorem Kept.of_some {o : Option Pte} {e : Pte} (h : Kept (some e) o) : o = some e := by
  rcases h with rfl | ⟨h, -⟩
  · rfl
  · cases h

/-! ## `walk` without allocation -/

/-- `walk` without allocation follows the path as far as it goes. -/
theorem walkLoop_find {m : Memory} {root va : Nat} : ∀ {level q : Nat}, level ≤ 2 →
    layout.page m.word root (pathTo va level) = some q →
    walkLoop va false level q m =
      .ok ((layout.page m.word root (pathTo va 0)).elim 0 (slot · (px 0 va)), m) := by
  intro level
  induction level with
  | zero =>
    intro q _ hq
    rw [hq]
    rfl
  | succ level ih =>
    intro q hlevel hq
    have hnext : layout.page m.word root (pathTo va level) =
        layout.next (m.word (slot q (px (level + 1) va))) := by
      rw [pathTo_eq_cons va hlevel]
      show (layout.page m.word root (pathTo va (level + 1))).bind _ = _
      rw [hq]
      rfl
    rw [walkLoop, PanicM.get_bind]
    by_cases hv : (m.word (slot q (px (level + 1) va))).getLsbD pteV = true
    · rw [if_pos hv]
      apply ih (by omega)
      rw [hnext]
      exact if_pos hv
    · rw [if_neg hv, if_neg (by decide)]
      have hnone : layout.page m.word root (pathTo va level) = none := by
        rw [hnext]
        exact if_neg hv
      -- no page at this level, so none at the bottom
      have hbottom : layout.page m.word root (pathTo va 0) = none := by
        rcases level with _ | _ | level
        · exact hnone
        · rw [pathTo_eq_cons va (show 0 < 2 by decide)]
          show (layout.page m.word root (pathTo va 1)).bind _ = none
          rw [hnone]
          rfl
        · omega
      rw [hbottom]
      rfl

theorem slot_ne_zero {p : Nat} (h : p ≠ 0) (i : Fin 512) : slot p i ≠ 0 := by
  unfold slot
  omega

/-- What `walk(pagetable, va, 0)` finds is the leaf entry of `va`. -/
theorem entry_eq_leaf {m : Memory} {root va : Nat} (ht : IsTable m root) (hva : va < maxva) :
    entry m root va = leaf m root va := by
  unfold entry walk leaf RadixLayout.lookup
  rw [if_neg (Nat.not_le.mpr hva), @walkLoop_find m root va 2 root le_rfl rfl]
  cases hp : layout.page m.word root (pathTo va 0) with
  | none => rfl
  | some p =>
    have hne : p ≠ 0 := fun h0 => ht.nonnull _ (length_pathTo va (by decide)).le (h0 ▸ hp)
    exact if_neg (slot_ne_zero hne _)

/-! ## `walk` with allocation -/

theorem pte2pa_link {p : Nat} (hal : p % pgsize = 0) (hlt : p < 2 ^ 64) :
    pte2pa (pa2pte p ||| bit pteV) = p := by
  have hal' : p % 4096 = 0 := hal
  have hup : upper (pa2pte p ||| bit pteV) = BitVec.ofNat 64 p >>> 12 := by
    rw [upper_or_bit _ (by decide)]
    apply upper_shiftLeft
    rw [BitVec.toNat_ushiftRight, BitVec.toNat_ofNat, Nat.shiftRight_eq_div_pow]
    omega
  unfold pte2pa
  rw [show (pa2pte p ||| bit pteV) >>> 10 = BitVec.ofNat 64 p >>> 12 from hup,
    BitVec.toNat_shiftLeft, BitVec.toNat_ushiftRight, BitVec.toNat_ofNat,
    Nat.shiftRight_eq_div_pow, Nat.shiftLeft_eq]
  omega

theorem next_link {p : Nat} (hal : p % pgsize = 0) (hlt : p < 2 ^ 64) :
    layout.next (pa2pte p ||| bit pteV) = some p := by
  have hv : (pa2pte p ||| bit pteV).getLsbD pteV = true := by
    rw [BitVec.getLsbD_or, getLsbD_bit (by decide)]
    simp
  show (if _ then _ else _) = _
  rw [if_pos hv, pte2pa_link hal hlt]

/-- The memory after a table page was hung under `pte`. -/
def Memory.linked (m : Memory) (pte page : Nat) (free : List Nat) : Memory :=
  ({ m with free := free }.zeroed page).store pte (pa2pte page ||| bit pteV)

theorem zeroed_slot {m : Memory} (p : Nat) (j : Fin 512) : (m.zeroed p).word (slot p j) = 0 := by
  have := j.isLt
  refine if_pos ⟨?_, ?_⟩
  · show p ≤ p + 8 * j.val
    omega
  · show p + 8 * j.val < p + 4096
    omega

theorem zeroed_slot_of_ne {m : Memory} {p r : Nat} (hp : IsPage p) (hr : IsPage r) (hne : r ≠ p)
    (j : Fin 512) : (m.zeroed p).word (slot r j) = m.word (slot r j) := by
  have := j.isLt
  have hp : p % 4096 = 0 := hp
  have hr : r % 4096 = 0 := hr
  refine if_neg ?_
  show ¬ (p ≤ r + 8 * j.val ∧ r + 8 * j.val < p + 4096)
  omega

/-- The page hung is empty. -/
theorem linked_slot {m : Memory} {q p : Nat} {i : Fin 512} {free : List Nat} (hq : IsPage q)
    (hp : IsPage p) (hqp : q ≠ p) (j : Fin 512) :
    (m.linked (slot q i) p free).word (slot p j) = 0 := by
  have hover := RadixLayout.Overwrites.update (L := layout)
    ({ m with free := free }.zeroed p).word hq i (pa2pte p ||| bit pteV)
  exact (hover p j hp (fun h => hqp h.1.symm)).trans (zeroed_slot p j)

theorem linked_linked {m : Memory} {q p : Nat} {i : Fin 512} {free : List Nat}
    (hq : IsPage q) (hqp : q ≠ p) (hal : p % pgsize = 0) (hlt : p < 2 ^ 64) :
    layout.Linked m.word (m.linked (slot q i) p free).word q i p := by
  have hover := RadixLayout.Overwrites.update (L := layout)
    ({ m with free := free }.zeroed p).word hq i (pa2pte p ||| bit pteV)
  refine ⟨?_, ?_, ?_⟩
  · have h : (m.linked (slot q i) p free).word (slot q i) = pa2pte p ||| bit pteV :=
      update_self _ _ _
    show layout.next ((m.linked (slot q i) p free).word (slot q i)) = some p
    rw [h, next_link hal hlt]
  · intro j
    show layout.next ((m.linked (slot q i) p free).word (slot p j)) = none
    rw [linked_slot hq hal hqp]
    rfl
  · intro r j hr hrp hne
    exact (hover r j hr hne).trans (zeroed_slot_of_ne hal hr hrp j)

/-- What `walk(root, va, 1)`, with `level` levels to go, may have done when it returned `pte`. -/
structure Walked (level : Nat) (m m' : Memory) (root va pte : Nat) : Prop where
  table : IsTable m' root
  supply : Supply m' root
  kept : ∀ va', Kept (leaf m root va') (leaf m' root va')
  found : (pte = 0 ∧ m.free.length < level) ∨
    ∃ p, layout.page m'.word root (pathTo va 0) = some p ∧ pte = slot p (px 0 va)
  spent : m.free.length ≤ m'.free.length + level

/-- A turn that takes at most one page. -/
theorem Walked.after {m m₁ m' : Memory} {root va pte level : Nat} (h : Walked level m₁ m' root va pte)
    (hkept : ∀ va', Kept (leaf m root va') (leaf m₁ root va')) (hfree : m.free.length ≤ m₁.free.length + 1) :
    Walked (level + 1) m m' root va pte :=
  { h with
    kept := fun va' => (hkept va').trans (h.kept va')
    found := h.found.imp_left fun h => ⟨h.1, by omega⟩
    spent := by have := h.spent; omega }

/-- One turn of the loop that allocates. -/
theorem walk_link {m : Memory} {root q p : Nat} {n : List (Fin 512)} {i : Fin 512}
    {free : List Nat} (ht : IsTable m root) (hs : Supply m root) (hn : n.length < 2)
    (hq : layout.page m.word root n = some q)
    (hnone : layout.next (m.word (slot q i)) = none) (hfree : m.free = p :: free) :
    IsTable (m.linked (slot q i) p free) root ∧ Supply (m.linked (slot q i) p free) root ∧
      layout.page (m.linked (slot q i) p free).word root (i :: n) = some p ∧
      ∀ va, Kept (leaf m root va) (leaf (m.linked (slot q i) p free) root va) := by
  have hmem : p ∈ m.free := by simp [hfree]
  obtain ⟨hal, hp0, hlt⟩ := hs.isPage p hmem
  have hfresh := hs.unreached p hmem
  have hqp : q ≠ p := fun h => hfresh n hn.le (h ▸ hq)
  have hl := @linked_linked m q p i free
    (RadixLayout.isPage_of_page ht.tree.isPage_root hq) hqp hal hlt
  have hnodup := hs.nodup
  rw [hfree] at hnodup
  refine ⟨⟨ht.tree.link hn hq hnone hfresh hl, ?_⟩, ⟨hnodup.of_cons, ?_, ?_⟩, ?_, ?_⟩
  · exact ht.nonnull.link (Ne.symm hp0) ht.tree hn hq hnone hfresh hl
  · intro r hr
    exact hs.isPage r (by rw [hfree]; exact List.mem_cons_of_mem _ hr)
  · intro r hr
    have hrp : r ≠ p := fun h => (List.nodup_cons.mp hnodup).1 (h ▸ hr)
    exact (hs.unreached r (by rw [hfree]; exact List.mem_cons_of_mem _ hr)).link hrp
      ht.tree hn hq hnone hfresh hl
  · rw [RadixLayout.page_link ht.tree hn hq hnone hfresh hl (i :: n) hn, if_pos rfl]
  · intro va
    unfold leaf
    rw [RadixLayout.lookup_link ht.tree hn hq hnone hfresh hl (length_pathTo va (by decide))]
    split
    · next hpath =>
        -- the page is new and all zero, and there was no leaf table before
        refine .inr ⟨?_, ?_⟩
        · unfold RadixLayout.lookup
          rw [hpath]
          show ((layout.page m.word root n).bind _).map _ = none
          rw [hq]
          show (layout.next (m.word (slot q i))).map _ = none
          rw [hnone]
          rfl
        · exact congrArg some
            (linked_slot (RadixLayout.isPage_of_page ht.tree.isPage_root hq) hal hqp _)
    · exact .refl _

/-- `walk` with allocation extends it, while there are pages. -/
theorem walkLoop_alloc {root va : Nat} : ∀ {level q : Nat} {m : Memory}, level ≤ 2 →
    IsTable m root → Supply m root → layout.page m.word root (pathTo va level) = some q →
    ∃ pte m', walkLoop va true level q m = .ok (pte, m') ∧ Walked level m m' root va pte := by
  intro level
  induction level with
  | zero =>
    intro q m _ ht hs hq
    exact ⟨_, m, rfl, ht, hs, fun _ => .refl _, .inr ⟨q, hq, rfl⟩, le_rfl⟩
  | succ level ih =>
    intro q m hlevel ht hs hq
    have hcons := pathTo_eq_cons va hlevel
    have hlen : (pathTo va (level + 1)).length < 2 := by
      rw [length_pathTo va hlevel]
      omega
    rw [walkLoop, PanicM.get_bind]
    by_cases hv : (m.word (slot q (px (level + 1) va))).getLsbD pteV = true
    · rw [if_pos hv]
      obtain ⟨pte, m', hrun, hw⟩ := ih (q := pte2pa (m.word (slot q (px (level + 1) va)))) (by omega) ht hs (by
        rw [hcons]
        show (layout.page m.word root (pathTo va (level + 1))).bind _ = _
        rw [hq]
        exact if_pos hv)
      exact ⟨pte, m', hrun, hw.after (fun _ => .refl _) (Nat.le_succ _)⟩
    · rw [if_neg hv, if_pos rfl]
      have hnone : layout.next (m.word (slot q (px (level + 1) va))) = none := if_neg hv
      cases hfree : m.free with
      | nil =>
        have hkalloc : kalloc m = .ok (0, m) := by
          unfold kalloc
          rw [PanicM.get_bind, hfree]
          rfl
        rw [PanicM.bind_of_ok hkalloc, if_pos rfl]
        exact ⟨0, m, rfl, ht, hs, fun _ => .refl _, .inl ⟨rfl, by simp [hfree]⟩, Nat.le_add_right _ _⟩
      | cons p free =>
        have hkalloc : kalloc m = .ok (p, { m with free := free }) := by
          unfold kalloc
          rw [PanicM.get_bind, hfree]
          rfl
        have hp0 : p ≠ 0 := (hs.isPage p (by simp [hfree])).2.1
        obtain ⟨ht', hs', hp, hkept⟩ := walk_link ht hs hlen hq hnone hfree
        rw [← hcons] at hp
        obtain ⟨pte, m', hrun, hw⟩ := ih (by omega) ht' hs' hp
        rw [PanicM.bind_of_ok hkalloc, if_neg hp0, PanicM.modify_bind]
        exact ⟨pte, m', hrun, hw.after hkept (by rw [hfree]; rfl)⟩

theorem walk_alloc {m : Memory} {root va : Nat} (ht : IsTable m root) (hs : Supply m root)
    (hva : va < maxva) :
    ∃ pte m', walk root va true m = .ok (pte, m') ∧ Walked 2 m m' root va pte := by
  unfold walk
  rw [if_neg (Nat.not_le.mpr hva)]
  exact walkLoop_alloc le_rfl ht hs rfl

/-! ## `mappages` -/

/-- Two addresses have the same path and last index only within one page. -/
theorem leaf_index_injective {a va : Nat} (hal : a % pgsize = 0) (ha : a < maxva)
    (hva : va < maxva) (hpath : pathTo va 0 = pathTo a 0) (hpx : px 0 va = px 0 a) :
    pgrounddown va = a := by
  have h := List.cons.inj hpath
  have h₁ : px 1 va = px 1 a := h.1
  have h₂ : px 2 va = px 2 a := (List.cons.inj h.2).1
  have hvpn : vpn (pgrounddown va) = vpn a := by
    rw [vpn_pgrounddown, vpn, vpn, h₁, h₂, hpx]
  exact vpn_injective (pgrounddown_aligned va) hal ((pgrounddown_le va).trans_lt hva) ha hvpn

/-- The memory after `mappages` wrote the entry of the page `a`. -/
structure Wrote (m m' : Memory) (root a : Nat) (e : Pte) : Prop where
  table : IsTable m' root
  supply : Supply m' root
  entry : leaf m' root a = some e
  kept : ∀ va, va < maxva → pgrounddown va ≠ a → Kept (leaf m root va) (leaf m' root va)
  spent : m.free.length ≤ m'.free.length + 2

/-- The entry that `walk` found is written. -/
theorem Walked.store {m m' : Memory} {root a p : Nat} (hal : a % pgsize = 0) (ha : a < maxva)
    (h : Walked 2 m m' root a (slot p (px 0 a)))
    (hp : layout.page m'.word root (pathTo a 0) = some p) (e : Pte) :
    Wrote m (m'.store (slot p (px 0 a)) e) root a e := by
  have hlen := length_pathTo a (show 0 ≤ 2 by decide)
  have ho : layout.Overwrites m'.word (m'.store (slot p (px 0 a)) e).word p (px 0 a) :=
    RadixLayout.Overwrites.update _ (RadixLayout.isPage_of_page h.table.tree.isPage_root hp) _ _
  have hlook := fun va =>
    RadixLayout.lookup_overwrite h.table.tree hlen hp ho
      (length_pathTo va (show 0 ≤ 2 by decide)) (px 0 va)
  have hself : (m'.store (slot p (px 0 a)) e).word (layout.slot p (px 0 a)) = e :=
    update_self _ _ _
  refine ⟨⟨h.table.tree.overwrite hlen hp ho, h.table.nonnull.overwrite h.table.tree hlen hp ho⟩,
    ⟨h.supply.nodup, h.supply.isPage, ?_⟩, ?_, ?_, h.spent⟩
  · intro r hr
    exact (h.supply.unreached r hr).overwrite h.table.tree hlen hp ho
  · unfold leaf
    rw [hlook a, if_pos ⟨rfl, rfl⟩, hself]
  · intro va hva hne
    have hother : ¬ (pathTo va 0 = pathTo a 0 ∧ px 0 va = px 0 a) :=
      fun hc => hne (leaf_index_injective hal ha hva hc.1 hc.2)
    have hsame : leaf (m'.store (slot p (px 0 a)) e) root va = leaf m' root va := by
      unfold leaf
      rw [hlook va, if_neg hother]
    rw [hsame]
    exact h.kept va

/-- The entry of the page at `va` has `PTE_V` clear, or there is none. -/
def Unmapped (o : Option Pte) : Prop := ∀ e, o = some e → e.getLsbD pteV = false

theorem Unmapped.kept {o o' : Option Pte} (h : Unmapped o) (hk : Kept o o') : Unmapped o' := by
  rcases hk with rfl | ⟨-, rfl⟩
  · exact h
  · intro e he
    cases he
    rfl

/-- What `mappages` may have done to the `n` pages from `a` to `last` when it returned `r`. -/
structure Mapping (n : Nat) (m m' : Memory) (root a last pa : Nat) (perm : Pte) (r : Int) : Prop where
  table : IsTable m' root
  result : r = 0 ∨ (r = -1 ∧ m.free.length < 2 * n)
  mapped : r = 0 → ∀ va, va % pgsize = 0 → a ≤ va → va ≤ last →
    leaf m' root va = some (mapEntry (pa + (va - a)) perm)
  kept : ∀ va, va < maxva → va < a ∨ last + pgsize ≤ va → Kept (leaf m root va) (leaf m' root va)

/-- One turn of the loop: no table page could be had, or the entry of `a` is written. -/
theorem mappagesLoop_step {m : Memory} {root last a pa : Nat} {perm : Pte} (ht : IsTable m root)
    (hs : Supply m root) (hal : a % pgsize = 0) (ha : a < maxva)
    (hun : Unmapped (leaf m root a)) :
    (∃ m', mappagesLoop root last perm a pa m = .ok (-1, m') ∧ Walked 2 m m' root a 0 ∧ m.free.length < 2) ∨
      ∃ m₁, Wrote m m₁ root a (mapEntry pa perm) ∧
        mappagesLoop root last perm a pa m =
          if a = last then .ok (0, m₁)
          else mappagesLoop root last perm (a + pgsize) (pa + pgsize) m₁ := by
  obtain ⟨pte, m', hwalk, hw⟩ := walk_alloc ht hs ha
  rw [mappagesLoop, dif_pos ha, PanicM.bind_of_ok hwalk]
  rcases hw.found with ⟨rfl, hfree⟩ | ⟨p, hp, rfl⟩
  · exact .inl ⟨m', rfl, hw, hfree⟩
  · right
    have hpte : slot p (px 0 a) ≠ 0 := by
      intro h0
      obtain rfl : p = 0 := Nat.eq_zero_of_add_eq_zero_right h0
      exact hw.table.nonnull _ (length_pathTo a (by decide)).le hp
    have hleaf : leaf m' root a = some (m'.word (slot p (px 0 a))) := by
      unfold leaf RadixLayout.lookup
      rw [hp]
      rfl
    have hinvalid := hun.kept (hw.kept a) _ hleaf
    refine ⟨_, hw.store hal ha hp (mapEntry pa perm), ?_⟩
    rw [if_neg hpte, PanicM.get_bind, if_neg (by rw [hinvalid]; decide), PanicM.modify_bind]
    split <;> rfl

/-- The loop of `mappages`, page by page. -/
theorem mappagesLoop_spec {root last : Nat} {perm : Pte} (hlast : last < maxva)
    (hlal : last % pgsize = 0) : ∀ (k a pa : Nat) (m : Memory), last = a + k * pgsize →
    IsTable m root → Supply m root →
    (∀ va, va % pgsize = 0 → a ≤ va → va ≤ last → Unmapped (leaf m root va)) →
    ∃ r m', mappagesLoop root last perm a pa m = .ok (r, m') ∧
      Mapping (k + 1) m m' root a last pa perm r := by
  intro k
  induction k with
  | zero =>
    intro a pa m hk ht hs hun
    have hk : last = a := by simpa using hk
    subst hk
    rcases mappagesLoop_step ht hs hlal hlast (hun last hlal le_rfl le_rfl) with
      ⟨m', hrun, hw, hfree⟩ | ⟨m₁, hw, hrun⟩
    · exact ⟨-1, m', hrun, hw.table, .inr ⟨rfl, by omega⟩, by simp, fun va _ _ => hw.kept va⟩
    · rw [if_pos rfl] at hrun
      refine ⟨0, m₁, hrun, hw.table, .inl rfl, ?_, ?_⟩
      · intro _ va _ hle hge
        obtain rfl : va = last := le_antisymm hge hle
        simpa using hw.entry
      · intro va hva hout
        refine hw.kept va hva ?_
        intro hdown
        simp only [pgrounddown, pgsize] at hdown hout
        omega
  | succ k ih =>
    intro a pa m hk ht hs hun
    have hk' : last = a + (k * 4096 + 4096) := by
      rw [hk, Nat.succ_mul]
    have hal : a % pgsize = 0 := by
      have hlal : last % 4096 = 0 := hlal
      show a % 4096 = 0
      omega
    have ha : a < maxva := by omega
    rcases mappagesLoop_step ht hs hal ha (hun a hal le_rfl (by omega)) with
      ⟨m', hrun, hw, hfree⟩ | ⟨m₁, hw, hrun⟩
    · exact ⟨-1, m', hrun, hw.table, .inr ⟨rfl, by omega⟩, by simp, fun va _ _ => hw.kept va⟩
    · rw [if_neg (by omega)] at hrun
      -- the other pages of the range are still unmapped
      have hother : ∀ va, va < maxva → va < a ∨ a + pgsize ≤ va →
          Kept (leaf m root va) (leaf m₁ root va) := by
        intro va hva hout
        refine hw.kept va hva ?_
        intro hdown
        simp only [pgrounddown, pgsize] at hdown hout
        omega
      obtain ⟨r, m', hrest, hmap⟩ := ih (a + pgsize) (pa + pgsize) m₁
        (by rw [hk']; simp only [pgsize]; omega) hw.table hw.supply (by
          intro va hvaal hle hge
          refine (hun va hvaal (by omega) hge).kept (hother va (by omega) (.inr hle)))
      have hspent := hw.spent
      refine ⟨r, m', hrun.trans hrest, hmap.table, hmap.result.imp_right fun h => ⟨h.1, by omega⟩, ?_, ?_⟩
      · intro hr va hvaal hle hge
        by_cases hva : va = a
        · subst hva
          have h := hmap.kept va ha (.inl (by simp only [pgsize]; omega))
          rw [hw.entry] at h
          simpa using h.of_some
        · have hnext : a + pgsize ≤ va := by
            simp only [pgsize] at *
            omega
          have hsum : pa + pgsize + (va - (a + pgsize)) = pa + (va - a) := by omega
          rw [hmap.mapped hr va hvaal hnext hge, hsum]
      · intro va hva hout
        refine (hother va hva ?_).trans (hmap.kept va hva ?_)
        · simp only [pgsize] at *
          omega
        · simp only [pgsize] at *
          omega

/-- **Page tables are maps.** Over any memory in which the pages under `root` form a tree, and any
pages `kalloc` may return that are not among them, `mappages` on an unmapped range returns. With `0`
the entry of each page of the range is the one for its physical page, and with `0` or `-1` the entries
outside the range are as they were, or absent before and zero now, and the pages form a tree again.
The result is `-1` only if there were fewer than two pages to allocate for each page of the range. -/
theorem mappages_map (m : Memory) (root va size pa : Nat) (perm : Int32) (ht : IsTable m root)
    (hs : Supply m root) (hal : va % pgsize = 0) (hsize : 0 < size) (hrange : va + size ≤ maxva)
    (hun : ∀ va', va ≤ va' → va' < va + size → Unmapped (entry m root va')) :
    (size % pgsize = 0 → ∃ r m', mappages root va size pa perm m = .ok (r, m')) ∧
      ∀ r m', mappages root va size pa perm m = .ok (r, m') →
        (r = 0 ∨ (r = -1 ∧ m.free.length < 2 * (size / pgsize))) ∧ IsTable m' root ∧
          (r = 0 → ∀ va', va' % pgsize = 0 → va ≤ va' → va' < va + size →
            entry m' root va' =
              some (pa2pte (pa + (va' - va)) ||| permBits perm ||| bit pteV)) ∧
          ∀ va', va' < maxva → va' < va ∨ va + size ≤ va' →
            Kept (entry m root va') (entry m' root va') := by
  by_cases hsal : size % pgsize = 0
  · have hal' : va % 4096 = 0 := hal
    have hsal' : size % 4096 = 0 := hsal
    have hloop : mappages root va size pa perm =
        mappagesLoop root (va + size - pgsize) (permBits perm) va pa := by
      unfold mappages
      rw [if_neg (not_not.mpr hal), if_neg (not_not.mpr hsal), if_neg hsize.ne']
    have hlast : va + size - pgsize = va + (size / pgsize - 1) * pgsize := by
      simp only [pgsize]
      omega
    have hlt : va + size - pgsize < maxva := by
      simp only [pgsize]
      omega
    have hlal : (va + size - pgsize) % pgsize = 0 := by
      simp only [pgsize]
      omega
    obtain ⟨r, m', hrun, hmap⟩ := mappagesLoop_spec hlt hlal _ va pa m hlast
      ht hs (by
        intro va' hal₁ hle hge
        rw [← entry_eq_leaf ht (by omega)]
        exact hun va' hle (by simp only [pgsize] at hge; omega))
    rw [hloop]
    refine ⟨fun _ => ⟨r, m', hrun⟩, ?_⟩
    intro r₁ m₁ hrun₁
    rw [hrun] at hrun₁
    cases hrun₁
    refine ⟨hmap.result.imp_right fun h => ⟨h.1, ?_⟩, hmap.table, ?_, ?_⟩
    · have hpages := h.2
      simp only [pgsize] at hpages ⊢
      omega
    · intro hr va' hal₁ hle hlt'
      have hal₁' : va' % 4096 = 0 := hal₁
      rw [entry_eq_leaf hmap.table (by omega),
        hmap.mapped hr va' hal₁ hle (by simp only [pgsize]; omega)]
      unfold mapEntry
      rfl
    · intro va' hva' hout
      rw [entry_eq_leaf ht hva', entry_eq_leaf hmap.table hva']
      exact hmap.kept va' hva' (by simp only [pgsize] at *; omega)
  · have hpanic : mappages root va size pa perm m = .error .mappagesSizeAligned := by
      unfold mappages
      rw [if_neg (not_not.mpr hal), if_pos hsal]
      rfl
    refine ⟨fun h => absurd h hsal, ?_⟩
    intro r m' hrun
    rw [hpanic] at hrun
    cases hrun

/-! A table without entries is a tree of one page, so the theorem applies to it. -/

/-- Zeroed memory with four pages left. -/
def blank : Memory := ⟨fun _ => 0, [0x87ffe000, 0x87ffd000, 0x87ffc000, 0x87ffb000]⟩

theorem page_blank {root : Nat} {n : List (Fin 512)} {p : Nat}
    (h : layout.page blank.word root n = some p) : n = [] ∧ p = root := by
  cases n with
  | nil =>
    cases h
    exact ⟨rfl, rfl⟩
  | cons i n =>
    obtain ⟨q, -, hq⟩ := Option.bind_eq_some_iff.mp h
    have hnone : layout.next (blank.word (layout.slot q i)) = none :=
      if_neg (Bool.eq_false_iff.mp BitVec.getLsbD_zero)
    rw [hnone] at hq
    cases hq

theorem isTable_blank {root : Nat} (hal : root % pgsize = 0) (hne : root ≠ 0) :
    IsTable blank root where
  tree := ⟨hal, fun _ _ h h' => (page_blank h).1.trans (page_blank h').1.symm⟩
  nonnull := fun _ _ h => hne (page_blank h).2.symm

theorem supply_blank : Supply blank 0x87fff000 where
  nodup := by decide
  isPage := by decide
  unreached := by
    intro p hp n _ h
    rw [(page_blank h).2] at hp
    revert hp
    decide

/-- Two pages are mapped in an empty table. -/
theorem mappages_map_blank : ∃ m', mappages 0x87fff000 0 8192 0x80100000 22 blank = .ok (0, m') ∧
    IsTable m' 0x87fff000 ∧
    entry m' 0x87fff000 4096 = some (pa2pte 0x80101000 ||| permBits 22 ||| bit pteV) := by
  have ht : IsTable blank 0x87fff000 := isTable_blank (by decide) (by decide)
  obtain ⟨hok, hall⟩ := mappages_map blank 0x87fff000 0 8192 0x80100000 22 ht supply_blank
    (by decide) (by decide) (by decide) (by
      intro va' _ hlt e he
      rw [entry_eq_leaf ht (hlt.trans (by decide))] at he
      obtain ⟨p, -, rfl⟩ := Option.map_eq_some_iff.mp he
      exact BitVec.getLsbD_zero)
  obtain ⟨r, m', hrun⟩ := hok (by decide)
  obtain ⟨hr, htable, hmapped, -⟩ := hall r m' hrun
  obtain rfl : r = 0 := hr.resolve_right fun h => absurd h.2 (by decide)
  exact ⟨m', hrun, htable, hmapped rfl 4096 (by decide) (by decide) (by decide)⟩

/-! ## The tree of a table

The table in memory, read as a tree of `Vm/PageTable.lean`. The three writes of `walk` and `mappages`
are the three changes of the tree. -/

/-- The tree under `root`. -/
def tree (m : Memory) (root : Nat) : PageTable :=
  ⟨fun i₂ => (layout.page m.word root [i₂]).map fun mid =>
    ⟨mid, fun i₁ => (layout.page m.word root [i₁, i₂]).map fun low =>
      ⟨low, fun i₀ => m.word (slot low i₀)⟩⟩⟩

section Writes

variable {m : Memory} {root q p : Nat} {n : List (Fin 512)} {i : Fin 512} {free : List Nat}

end Writes

end Xv6.Raw
