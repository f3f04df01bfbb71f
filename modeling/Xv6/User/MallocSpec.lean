import Xv6.User.Malloc
import Xv6.Lib.Transition

/-!
# The user heap keeps its blocks apart

Every block of the heap is on the free list, live, or loose: taken off the list, handed out by `sbrk`
or given back by the program, and not yet put anywhere. `free` and `malloc` are made of a few moves
between these three, each with its lemma: a block is unlinked, two loose blocks that touch are joined,
a loose block is linked in or joined to the block below, a block is split, and a loose block becomes
live. `Ok` says that the blocks lie side by side and that the list is a sorted ring without two
blocks that touch.
-/

namespace Xv6.Malloc

open Function Finset Heap

/-- The free, loose and live blocks. `live` gives the number of bytes asked for. -/
def blocks (live : Nat → Option Nat) (F L : Finset Nat) : Set Nat :=
  {b | b ∈ F ∨ b ∈ L ∨ live b ≠ none}

/-- The heap with the free blocks `F` and the loose blocks `L`. -/
structure Ok (base : Nat) (h : Heap) (live : Nat → Option Nat) (F L : Finset Nat) : Prop where
  layout : Layout base h (blocks live F L)
  ring : SortedRing h.ptr F
  base_mem : base ∈ F
  base_size : h.size base = 0
  coalesced : ∀ p ∈ F, ∀ q ∈ F, p ≠ base → p ≠ q → h.above p ≠ q
  loose : ∀ b ∈ L, b ∉ F ∧ live b = none
  free : ∀ b ∈ F, live b = none
  enough : ∀ b n, live b = some n → n + 16 ≤ 16 * h.size b

namespace Ok

variable {base : Nat} {h h' : Heap} {live : Nat → Option Nat} {F L : Finset Nat} {b p q n : Nat}

theorem mem_free (hp : p ∈ F) : p ∈ blocks live F L := .inl hp

theorem mem_loose (hb : b ∈ L) : b ∈ blocks live F L := .inr (.inl hb)

theorem mem_live (hb : live b = some n) : b ∈ blocks live F L := by
  refine .inr (.inr ?_)
  rw [hb]
  exact Option.some_ne_none n

/-- Only the headers of blocks matter. -/
theorem congr (hok : Ok base h live F L) (hptr : ∀ p ∈ F, h'.ptr p = h.ptr p)
    (hsize : ∀ b ∈ blocks live F L, h'.size b = h.size b) (hbrk : h'.brk = h.brk)
    (hregions : h'.regions = h.regions) : Ok base h' live F L := by
  refine ⟨hok.layout.congr hsize hbrk hregions, hok.ring.congr hptr, hok.base_mem, ?_, ?_, hok.loose,
    hok.free, ?_⟩
  · rw [hsize base (mem_free hok.base_mem)]
    exact hok.base_size
  · intro p hp q hq hbase hne
    rw [above, hsize p (mem_free hp)]
    exact hok.coalesced p hp q hq hbase hne
  · intro b n hb
    rw [hsize b (mem_live hb)]
    exact hok.enough b n hb

/-- The block behind `p` is taken off the list. -/
theorem unlink (hok : Ok base h live F L) (hp : p ∈ F) (hne : h.ptr p ≠ p) (hbase : h.ptr p ≠ base) :
    Ok base (h.setPtr p (h.ptr (h.ptr p))) live (F.erase (h.ptr p)) (insert (h.ptr p) L) := by
  have hq : h.ptr p ∈ F := hok.ring.mem p hp
  have hblocks : blocks live (F.erase (h.ptr p)) (insert (h.ptr p) L) = blocks live F L := by
    ext x
    simp only [blocks, Set.mem_ofPred_eq, mem_erase, mem_insert]
    by_cases hx : x = h.ptr p
    · simp [hx, hq]
    · simp [hx]
  refine ⟨?_, ?_, mem_erase.mpr ⟨hbase.symm, hok.base_mem⟩, ?_, ?_, ?_, ?_, ?_⟩
  · rw [hblocks]
    exact hok.layout.congr (fun _ _ => setPtr_size) rfl rfl
  · rw [setPtr_ptr_eq]
    exact hok.ring.erase hp hne
  · rw [setPtr_size]
    exact hok.base_size
  · intro x hx y hy hxbase hxy
    rw [above, setPtr_size]
    exact hok.coalesced x (mem_of_mem_erase hx) y (mem_of_mem_erase hy) hxbase hxy
  · intro x hx
    rcases mem_insert.mp hx with rfl | hx
    · exact ⟨notMem_erase _ _, hok.free _ hq⟩
    · exact ⟨fun hmem => (hok.loose x hx).1 (mem_of_mem_erase hmem), (hok.loose x hx).2⟩
  · exact fun x hx => hok.free x (mem_of_mem_erase hx)
  · intro x n hx
    rw [setPtr_size]
    exact hok.enough x n hx

/-- Two loose blocks that touch are joined. -/
theorem join (hok : Ok base h live F L) (hb : b ∈ L) (hq : q ∈ L) (hne : b ≠ q)
    (htouch : h.above b = q) :
    Ok base (h.setSize b (sum (h.size b) (h.size q))) live F (L.erase q) := by
  have hbbase : b ≠ base := fun heq => (hok.loose b hb).1 (heq ▸ hok.base_mem)
  have hblocks : blocks live F (L.erase q) = blocks live F L \ {q} := by
    ext x
    simp only [blocks, Set.mem_ofPred_eq, mem_erase, Set.mem_sdiff, Set.mem_singleton_iff]
    by_cases hx : x = q
    · simp [hx, hok.loose q hq]
    · simp [hx]
  have hsize : ∀ x, x ≠ b → (h.setSize b (sum (h.size b) (h.size q))).size x = h.size x :=
    fun x hx => setSize_size_of_ne hx
  refine ⟨?_, ?_, hok.base_mem, ?_, ?_, ?_, hok.free, ?_⟩
  · rw [hblocks]
    exact hok.layout.join (mem_loose hb) (mem_loose hq) hne hbbase htouch
  · exact hok.ring.congr fun _ _ => setSize_ptr
  · rw [hsize base hbbase.symm]
    exact hok.base_size
  · intro x hx y hy hxbase hxy
    rw [above, hsize x (by rintro rfl; exact (hok.loose x hb).1 hx)]
    exact hok.coalesced x hx y hy hxbase hxy
  · exact fun x hx => hok.loose x (mem_of_mem_erase hx)
  · intro x n hx
    rw [hsize x (by rintro rfl; rw [(hok.loose x hb).2] at hx; cases hx)]
    exact hok.enough x n hx

/-- Where a loose block has its place in the list: the blocks of the list below it end at `p`, and
those above it start at `h.ptr p`. -/
theorem neighbours (hok : Ok base h live F L) (hb : b ∈ L) (hp : p ∈ F)
    (hfits : SortedRing.Fits h.ptr b p) :
    p < b ∧ (∀ q ∈ F, q < b → q ≤ p) ∧ (∀ q ∈ F, b < q → b < h.ptr p ∧ h.ptr p ≤ q) := by
  have hlow := hok.layout.base_le b (mem_loose hb)
  have hbase : base < b := lt_of_le_of_ne hlow fun heq => (hok.loose b hb).1 (heq ▸ hok.base_mem)
  have hgap := hok.ring.gap p hp
  have hwrap := hok.ring.wrap p hp
  rcases hfits with ⟨hlt, hup⟩ | ⟨hle, hlt | hlt⟩
  · refine ⟨hlt, ?_, ?_⟩
    · intro q hq hqb
      by_contra hnot
      have := hgap q hq (by omega)
      omega
    · intro q hq hqb
      have := hgap q hq (by omega)
      omega
  · refine ⟨hlt, ?_, ?_⟩
    · exact fun q hq _ => (hwrap hle q hq).2
    · intro q hq hqb
      have := (hwrap hle q hq).2
      omega
  · -- Nothing lies below the static header.
    have := (hwrap hle base hok.base_mem).1
    omega

/-- A loose block that does not touch its neighbours is linked in. -/
theorem linkIn (hok : Ok base h live F L) (hb : b ∈ L) (hp : p ∈ F)
    (hfits : SortedRing.Fits h.ptr b p) (hup : h.above b ≠ h.ptr p) (hdown : h.above p ≠ b) :
    Ok base ((h.setPtr b (h.ptr p)).setPtr p b) live (insert b F) (L.erase b) := by
  obtain ⟨hlt, hbelow, habove⟩ := hok.neighbours hb hp hfits
  obtain ⟨hbF, hblive⟩ := hok.loose b hb
  have hblocks : blocks live (insert b F) (L.erase b) = blocks live F L := by
    ext x
    simp only [blocks, Set.mem_ofPred_eq, mem_erase, mem_insert]
    by_cases hx : x = b
    · simp [hx, hb]
    · simp [hx]
  have hapart := hok.layout.apart
  have hsize : ∀ x, ((h.setPtr b (h.ptr p)).setPtr p b).size x = h.size x := fun x => by
    rw [setPtr_size, setPtr_size]
  have hfoot : ∀ x, h.size x ≤ h.foot x := fun x => le_max_right _ _
  refine ⟨?_, ?_, mem_insert_of_mem hok.base_mem, ?_, ?_, ?_, ?_, ?_⟩
  · rw [hblocks]
    exact hok.layout.congr (fun x _ => hsize x) rfl rfl
  · rw [setPtr_ptr_eq, setPtr_ptr_eq]
    exact hok.ring.insert hp hbF hfits
  · rw [hsize]
    exact hok.base_size
  · intro x hx y hy hxbase hxy
    rw [above, hsize]
    rcases mem_insert.mp hx with rfl | hxF
    · -- Above the new block there is at least the gap to the next one.
      rcases mem_insert.mp hy with rfl | hy
      · exact absurd rfl hxy
      · rcases lt_or_gt_of_ne hxy with hlt' | hgt
        · obtain ⟨hless, hle⟩ := habove y hy hlt'
          have := hapart x (mem_loose hb) _ (mem_free (hok.ring.mem p hp)) hless
          have := hfoot x
          have hup' : x + 16 * h.size x ≠ h.ptr p := hup
          omega
        · omega
    · rcases mem_insert.mp hy with rfl | hy
      · by_cases hxp : x = p
        · rw [hxp]
          exact hdown
        · rcases lt_or_gt_of_ne hxy with hlt' | hgt
          · have hle := hbelow x hxF hlt'
            have := hapart x (mem_free hxF) p (mem_free hp) (by omega)
            have := hfoot x
            omega
          · omega
      · exact hok.coalesced x hxF y hy hxbase hxy
  · intro x hx
    obtain ⟨hxb, hx⟩ := mem_erase.mp hx
    obtain ⟨hxF, hxlive⟩ := hok.loose x hx
    refine ⟨?_, hxlive⟩
    rw [mem_insert]
    exact not_or.mpr ⟨hxb, hxF⟩
  · intro x hx
    rcases mem_insert.mp hx with rfl | hx
    · exact hblive
    · exact hok.free x hx
  · intro x n hx
    rw [hsize]
    exact hok.enough x n hx

/-- A loose block that touches the block below it is joined to that. -/
theorem extend (hok : Ok base h live F L) (hb : b ∈ L) (hp : p ∈ F)
    (hfits : SortedRing.Fits h.ptr b p) (hup : h.above b ≠ h.ptr p) (hdown : h.above p = b) :
    Ok base (h.setSize p (sum (h.size p) (h.size b))) live F (L.erase b) := by
  obtain ⟨hlt, hbelow, habove⟩ := hok.neighbours hb hp hfits
  obtain ⟨hbF, hblive⟩ := hok.loose b hb
  have hpbase : p ≠ base := by
    rintro rfl
    rw [above, hok.base_size] at hdown
    omega
  have hblocks : blocks live F (L.erase b) = blocks live F L \ {b} := by
    ext x
    simp only [blocks, Set.mem_ofPred_eq, mem_erase, Set.mem_sdiff, Set.mem_singleton_iff]
    by_cases hx : x = b
    · simp [hx, hbF, hblive]
    · simp [hx]
  have hsize : ∀ x, x ≠ p → (h.setSize p (sum (h.size p) (h.size b))).size x = h.size x :=
    fun x hx => setSize_size_of_ne hx
  have hapart := hok.layout.apart
  have hfoot : ∀ x, h.size x ≤ h.foot x := fun x => le_max_right _ _
  refine ⟨?_, ?_, hok.base_mem, ?_, ?_, ?_, hok.free, ?_⟩
  · rw [hblocks]
    exact hok.layout.join (mem_free hp) (mem_loose hb) hlt.ne hpbase hdown
  · exact hok.ring.congr fun _ _ => setSize_ptr
  · rw [hsize base hpbase.symm]
    exact hok.base_size
  · intro x hx y hy hxbase hxy
    by_cases hxp : x = p
    · subst hxp
      rw [above, setSize_size_self]
      have hle : sum (h.size x) (h.size b) ≤ h.size x + h.size b := Nat.mod_le _ _
      have hdown' : x + 16 * h.size x = b := hdown
      rcases lt_or_gt_of_ne hxy with hlt' | hgt
      · have hby : b < y := by
          have := hapart x (mem_free hx) y (mem_free hy) hlt'
          have := hfoot x
          have : y ≠ b := fun heq => hbF (heq ▸ hy)
          omega
        obtain ⟨hless, hle'⟩ := habove y hy hby
        have := hapart b (mem_loose hb) _ (mem_free (hok.ring.mem x hp)) hless
        have := hfoot b
        have hup' : b + 16 * h.size b ≠ h.ptr x := hup
        omega
      · omega
    · rw [above, hsize x hxp]
      exact hok.coalesced x hx y hy hxbase hxy
  · exact fun x hx => hok.loose x (mem_of_mem_erase hx)
  · intro x n hx
    rw [hsize x (by rintro rfl; rw [hok.free x hp] at hx; cases hx)]
    exact hok.enough x n hx

/-- The upper part of a free block is split off. -/
theorem split (hok : Ok base h live F L) (hp : p ∈ F) (hn : 0 < n) (hlt : n < h.size p) :
    Ok base ((h.setSize p (h.size p - n)).setSize (p + 16 * (h.size p - n)) n) live F
      (insert (p + 16 * (h.size p - n)) L) := by
  have hpbase : p ≠ base := by
    rintro rfl
    rw [hok.base_size] at hlt
    omega
  obtain ⟨hlayout, hnew⟩ := hok.layout.split (mem_free hp) hpbase hn hlt
  obtain ⟨c, hc⟩ : ∃ c, c = p + 16 * (h.size p - n) := ⟨_, rfl⟩
  rw [← hc] at hlayout hnew ⊢
  have hblocks : blocks live F (insert c L) = insert c (blocks live F L) := by
    ext x
    simp only [blocks, Set.mem_ofPred_eq, mem_insert, Set.mem_insert_iff]
    tauto
  have hne : ∀ x ∈ blocks live F L, x ≠ c := by
    rintro x hx rfl
    exact hnew hx
  have hpc : p ≠ c := hne p (mem_free hp)
  refine ⟨?_, ?_, hok.base_mem, ?_, ?_, ?_, hok.free, ?_⟩
  · rw [hblocks]
    exact hlayout
  · exact hok.ring.congr fun _ _ => by rw [setSize_ptr, setSize_ptr]
  · rw [setSize_size_of_ne (hne base (mem_free hok.base_mem)), setSize_size_of_ne hpbase.symm]
    exact hok.base_size
  · intro x hx y hy hxbase hxy
    rw [above, setSize_size_of_ne (hne x (mem_free hx))]
    by_cases hxp : x = p
    · subst hxp
      rw [setSize_size_self]
      intro heq
      exact hne y (mem_free hy) (by omega)
    · rw [setSize_size_of_ne hxp]
      exact hok.coalesced x hx y hy hxbase hxy
  · intro x hx
    rcases mem_insert.mp hx with rfl | hx
    · refine ⟨fun hmem => hnew (mem_free hmem), ?_⟩
      by_contra hmem
      exact hnew (.inr (.inr hmem))
    · exact hok.loose x hx
  · intro x m hx
    rw [setSize_size_of_ne (hne x (mem_live hx)),
      setSize_size_of_ne (by rintro rfl; rw [hok.free x hp] at hx; cases hx)]
    exact hok.enough x m hx

/-- A loose block is handed to the program. -/
theorem give (hok : Ok base h live F L) (hb : b ∈ L) (hn : n + 16 ≤ 16 * h.size b) :
    Ok base h (update live b (some n)) F (L.erase b) := by
  obtain ⟨hbF, hblive⟩ := hok.loose b hb
  have hother : ∀ x, x ≠ b → update live b (some n) x = live x :=
    fun x hx => update_of_ne hx _ _
  have hblocks : blocks (update live b (some n)) F (L.erase b) = blocks live F L := by
    ext x
    simp only [blocks, Set.mem_ofPred_eq, mem_erase]
    by_cases hx : x = b
    · simp [hx, hb]
    · simp [hx]
  refine ⟨?_, hok.ring, hok.base_mem, hok.base_size, hok.coalesced, ?_, ?_, ?_⟩
  · rw [hblocks]
    exact hok.layout
  · intro x hx
    obtain ⟨hxb, hx⟩ := mem_erase.mp hx
    rw [hother x hxb]
    exact hok.loose x hx
  · intro x hx
    rw [hother x (by rintro rfl; exact hbF hx)]
    exact hok.free x hx
  · intro x m hx
    by_cases hxb : x = b
    · subst hxb
      rw [update_self] at hx
      cases hx
      exact hn
    · rw [hother x hxb] at hx
      exact hok.enough x m hx

/-- The program gives a live block back. -/
theorem drop (hok : Ok base h live F L) (hb : live b = some n) :
    Ok base h (update live b none) F (insert b L) := by
  have hbF : b ∉ F := by
    intro hmem
    rw [hok.free b hmem] at hb
    cases hb
  have hother : ∀ x, x ≠ b → update live b none x = live x :=
    fun x hx => update_of_ne hx _ _
  have hblocks : blocks (update live b none) F (insert b L) = blocks live F L := by
    ext x
    simp only [blocks, Set.mem_ofPred_eq, mem_insert]
    by_cases hx : x = b
    · simp [hx, hb]
    · simp [hx]
  refine ⟨?_, hok.ring, hok.base_mem, hok.base_size, hok.coalesced, ?_, ?_, ?_⟩
  · rw [hblocks]
    exact hok.layout
  · intro x hx
    rcases mem_insert.mp hx with rfl | hx
    · exact ⟨hbF, update_self ..⟩
    · by_cases hxb : x = b
      · subst hxb
        exact ⟨hbF, update_self ..⟩
      · rw [hother x hxb]
        exact hok.loose x hx
  · intro x hx
    rw [hother x (by rintro rfl; exact hbF hx)]
    exact hok.free x hx
  · intro x m hx
    by_cases hxb : x = b
    · subst hxb
      rw [update_self] at hx
      cases hx
    · rw [hother x hxb] at hx
      exact hok.enough x m hx

/-- `sbrk` hands out a fresh block. -/
theorem grow (hok : Ok base h live F L) (gap : Nat) (hn : 0 < n) (hlt : n < 2 ^ 32) :
    Ok base ((h.grow gap (n * 16)).setSize (h.brk + gap) n) live F (insert (h.brk + gap) L) ∧
      ∀ q ∈ F, q < h.brk + gap := by
  obtain ⟨hlayout, hless⟩ := hok.layout.grow (mem_free hok.base_mem) gap hn hlt
  have hblocks : blocks live F (insert (h.brk + gap) L) = insert (h.brk + gap) (blocks live F L) := by
    ext x
    simp only [blocks, Set.mem_ofPred_eq, mem_insert, Set.mem_insert_iff]
    tauto
  have hsize : ∀ x ∈ blocks live F L,
      ((h.grow gap (n * 16)).setSize (h.brk + gap) n).size x = h.size x :=
    fun x hx => setSize_size_of_ne (hless x hx).ne
  refine ⟨⟨?_, ?_, hok.base_mem, ?_, ?_, ?_, hok.free, ?_⟩, fun q hq => hless q (mem_free hq)⟩
  · rw [hblocks]
    exact hlayout
  · exact hok.ring.congr fun _ _ => setSize_ptr
  · rw [hsize base (mem_free hok.base_mem)]
    exact hok.base_size
  · intro x hx y hy hxbase hxy
    rw [above, hsize x (mem_free hx)]
    exact hok.coalesced x hx y hy hxbase hxy
  · intro x hx
    rcases mem_insert.mp hx with rfl | hx
    · refine ⟨fun hmem => (hless _ (mem_free hmem)).ne rfl, ?_⟩
      by_contra hmem
      exact (hless _ (.inr (.inr hmem))).ne rfl
    · exact hok.loose x hx
  · intro x m hx
    rw [hsize x (mem_live hx)]
    exact hok.enough x m hx

/-! ## Giving a block back -/

/-- After the first test nothing above the block touches it, and its successor is ready. -/
structure Placed (base : Nat) (live : Nat → Option Nat) (b p : Nat) (h h₁ : Heap) (F : Finset Nat) :
    Prop where
  ok : Ok base h live F {b}
  mem : p ∈ F
  fits : SortedRing.Fits h.ptr b p
  apart : h.above b ≠ h.ptr p
  ptr_new : h₁.ptr b = h.ptr p
  ptr : ∀ x ∈ F, x ≠ p → h₁.ptr x = h.ptr x
  size : ∀ x ∈ blocks live F {b}, h₁.size x = h.size x
  brk : h₁.brk = h.brk
  regions : h₁.regions = h.regions

/-- The second test, when the block below touches. -/
theorem mergeDown_touch {h₁ : Heap} (hpl : Placed base live b p h h₁ F) (hdown : h₁.above p = b) :
    Ok base (mergeDown h₁ b p) live F ∅ := by
  have hsize := hpl.size
  have hdown' : h.above p = b := by
    rw [← hdown, above, above, hsize p (mem_free hpl.mem)]
  have hext := hpl.ok.extend (mem_singleton_self b) hpl.mem hpl.fits hpl.apart hdown'
  rw [erase_singleton] at hext
  unfold mergeDown
  rw [if_pos hdown]
  apply hext.congr
  · intro x hx
    rw [setSize_ptr]
    by_cases hxp : x = p
    · rw [hxp, setPtr_ptr_self]
      exact hpl.ptr_new
    · rw [setPtr_ptr_of_ne hxp, setSize_ptr]
      exact hpl.ptr x hx hxp
  · intro x hx
    have hx' : x ∈ blocks live F {b} := hx.imp_right fun hx => .inr (hx.resolve_left (notMem_empty x))
    rw [setPtr_size]
    by_cases hxp : x = p
    · rw [hxp, setSize_size_self, setSize_size_self, hsize p (mem_free hpl.mem),
        hsize b (mem_loose (mem_singleton_self b))]
    · rw [setSize_size_of_ne hxp, setSize_size_of_ne hxp]
      exact hsize x hx'
  · exact hpl.brk
  · exact hpl.regions

/-- The second test, when the block below does not touch. -/
theorem mergeDown_apart {h₁ : Heap} (hpl : Placed base live b p h h₁ F) (hdown : h₁.above p ≠ b) :
    Ok base (mergeDown h₁ b p) live (insert b F) ∅ := by
  have hsize := hpl.size
  have hdown' : h.above p ≠ b := by
    rw [above, ← hsize p (mem_free hpl.mem)]
    exact hdown
  have hlink := hpl.ok.linkIn (mem_singleton_self b) hpl.mem hpl.fits hpl.apart hdown'
  rw [erase_singleton] at hlink
  have hbF := (hpl.ok.loose b (mem_singleton_self b)).1
  have hpb : p ≠ b := by
    rintro rfl
    exact hbF hpl.mem
  unfold mergeDown
  rw [if_neg hdown]
  apply hlink.congr
  · intro x hx
    by_cases hxp : x = p
    · rw [hxp, setPtr_ptr_self, setPtr_ptr_self]
    · rw [setPtr_ptr_of_ne hxp, setPtr_ptr_of_ne hxp]
      by_cases hxb : x = b
      · rw [hxb, setPtr_ptr_self]
        exact hpl.ptr_new
      · rw [setPtr_ptr_of_ne hxb]
        exact hpl.ptr x ((mem_insert.mp hx).resolve_left hxb) hxp
  · intro x hx
    have hx' : x ∈ blocks live F {b} := by
      simp only [blocks, Set.mem_ofPred_eq, mem_insert, notMem_empty,
        mem_singleton] at hx ⊢
      tauto
    rw [setPtr_size, setPtr_size, setPtr_size]
    exact hsize x hx'
  · exact hpl.brk
  · exact hpl.regions

/-- The first test, when nothing touches from above. -/
theorem mergeUp_apart (hok : Ok base h live F {b}) (hp : p ∈ F) (hfits : SortedRing.Fits h.ptr b p)
    (hup : h.above b ≠ h.ptr p) : Placed base live b p h (mergeUp h b p) F := by
  have hbF := (hok.loose b (mem_singleton_self b)).1
  unfold mergeUp
  rw [if_neg hup]
  refine ⟨hok, hp, hfits, hup, setPtr_ptr_self, ?_, fun _ _ => setPtr_size, rfl, rfl⟩
  rintro x hx -
  exact setPtr_ptr_of_ne (by rintro rfl; exact hbF hx)

/-- The first test, when the block above touches: that one leaves the list. -/
theorem mergeUp_touch (hok : Ok base h live F {b}) (hp : p ∈ F) (hfits : SortedRing.Fits h.ptr b p)
    (hup : h.above b = h.ptr p) :
    ∃ h₀, Placed base live b p h₀ (mergeUp h b p) (F.erase (h.ptr p)) := by
  have hb : b ∈ ({b} : Finset Nat) := mem_singleton_self b
  obtain ⟨hlt, -, habove⟩ := hok.neighbours hb hp hfits
  obtain ⟨hbF, -⟩ := hok.loose b hb
  obtain ⟨q, hq⟩ : ∃ q, q = h.ptr p := ⟨_, rfl⟩
  have hqF : q ∈ F := hq ▸ hok.ring.mem p hp
  have hbq : b < q := by
    have hne : b ≠ q := fun heq => hbF (heq ▸ hqF)
    have hend : b + 16 * h.size b = q := hup.trans hq.symm
    omega
  have hqp : q ≠ p := by omega
  have hqbase : q ≠ base := by
    have := hok.layout.base_le b (mem_loose hb)
    omega
  have hunlink := hok.unlink hp (hq ▸ hqp) (hq ▸ hqbase)
  rw [← hq] at hunlink ⊢
  have hjoin := hunlink.join (b := b) (q := q) (by simp) (by simp) hbq.ne (by
    rw [above, setPtr_size]
    exact hup.trans hq.symm)
  have hloose : (insert q {b} : Finset Nat).erase q = {b} := by
    rw [erase_insert (by simpa using hbq.ne')]
  rw [setPtr_size, setPtr_size, hloose] at hjoin
  have hpb : p ≠ b := hlt.ne
  have hptrp : ((h.setPtr p (h.ptr q)).setSize b (sum (h.size b) (h.size q))).ptr p = h.ptr q := by
    rw [setSize_ptr, setPtr_ptr_self]
  -- What follows the block now is what followed `q`: above `q`, or the start of the list.
  have hnext : q < h.ptr q ∨ h.ptr q ≤ p := by
    by_cases hle : h.ptr q ≤ q
    · exact .inr (hok.ring.wrap q hqF hle p hp).1
    · exact .inl (not_le.mp hle)
  have hnextF := hok.ring.mem q hqF
  refine ⟨_, hjoin, mem_erase.mpr ⟨hqp.symm, hp⟩, ?_, ?_, ?_, ?_, ?_, ?_, ?_⟩
  · unfold SortedRing.Fits
    rw [hptrp]
    omega
  · rw [hptrp, above, setSize_size_self]
    have hle : sum (h.size b) (h.size q) ≤ h.size b + h.size q := Nat.mod_le _ _
    have hend : b + 16 * h.size b = q := hup.trans hq.symm
    rcases hnext with hgt | hle'
    · have := hok.layout.apart q (mem_free hqF) _ (mem_free hnextF) hgt
      have : h.size q ≤ h.foot q := le_max_right _ _
      have hne : q + 16 * h.size q ≠ h.ptr q := hok.coalesced q hqF _ hnextF hqbase hgt.ne
      omega
    · omega
  all_goals
    unfold mergeUp
    rw [if_pos hup, ← hq]
  · rw [setPtr_ptr_self, hptrp]
  · intro x hx hxp
    have hxb : x ≠ b := by
      rintro rfl
      exact hbF (mem_of_mem_erase hx)
    rw [setPtr_ptr_of_ne hxb, setSize_ptr, setSize_ptr, setPtr_ptr_of_ne hxp]
  · intro x _
    rw [setPtr_size]
    by_cases hxb : x = b
    · rw [hxb, setSize_size_self, setSize_size_self]
    · rw [setSize_size_of_ne hxb, setSize_size_of_ne hxb, setPtr_size]
  · rfl
  · rfl

theorem setFreep (hok : Ok base h live F L) (p : Nat) : Ok base (h.setFreep p) live F L :=
  hok.congr (fun _ _ => rfl) (fun _ _ => rfl) rfl rfl

/-- **The block is put on the list**, joined to what it touches. -/
theorem link (hok : Ok base h live F {b}) (hp : p ∈ F) (hfits : SortedRing.Fits h.ptr b p) :
    ∃ F', Ok base (link h b p) live F' ∅ ∧ p ∈ F' := by
  obtain ⟨h₀, F₀, hpl⟩ : ∃ h₀ F₀, Placed base live b p h₀ (mergeUp h b p) F₀ := by
    by_cases hup : h.above b = h.ptr p
    · obtain ⟨h₀, hpl⟩ := hok.mergeUp_touch hp hfits hup
      exact ⟨h₀, _, hpl⟩
    · exact ⟨h, F, hok.mergeUp_apart hp hfits hup⟩
  unfold Malloc.link
  by_cases hdown : (mergeUp h b p).above p = b
  · exact ⟨F₀, (mergeDown_touch hpl hdown).setFreep p, hpl.mem⟩
  · exact ⟨_, (mergeDown_apart hpl hdown).setFreep p, mem_insert_of_mem hpl.mem⟩

/-- The search of `free` ends at the place of the block. -/
theorem free_stops (hok : Ok base h live F {b}) (hfreep : h.freep ∈ F) :
    ∃ f, ∃ p ∈ F, SortedRing.Fits h.ptr b p ∧
      ∀ fuel, f ≤ fuel → Malloc.free fuel h (b + 16) = some (Malloc.link h b p) := by
  have hb : b ∈ ({b} : Finset Nat) := mem_singleton_self b
  obtain ⟨hbF, -⟩ := hok.loose b hb
  have hlt : base < b := by
    apply lt_of_le_of_ne (hok.layout.base_le b (mem_loose hb))
    rintro rfl
    exact hbF hok.base_mem
  obtain ⟨q, hq, hfits⟩ := hok.ring.exists_fits hbF hok.base_mem hlt
  obtain ⟨f, p, hp, hstop, hwalk⟩ := hok.ring.walk_stops (fun p => SortedRing.Fits h.ptr b p)
    hfreep hq (decide_eq_true hfits)
  refine ⟨f, p, hp, of_decide_eq_true hstop, fun fuel hfuel => ?_⟩
  unfold Malloc.free
  rw [Nat.add_sub_cancel]
  simp only [hwalk fuel hfuel, Option.map_some]

/-! ## Getting more memory -/

/-- No free block ends where `sbrk` may continue. -/
def Sunk (h : Heap) (F : Finset Nat) : Prop := ∀ q ∈ F, h.above q < h.brk

/-- **`morecore`**, when `sbrk` succeeds, returns `freep`. The new block is behind it, or it is joined
to it; a size that wraps around in this leaves the list sunk, and that cannot happen twice. -/
theorem morecore_grows (hok : Ok base h live F ∅) (hfreep : h.freep ∈ F) (hn : n < 2 ^ 32) (gap : Nat) :
    ∃ f h' F', (∀ fuel, f ≤ fuel → morecore fuel h n (some gap) = some (h'.freep, h')) ∧
      Ok base h' live F' ∅ ∧ h'.freep ∈ F' ∧
      (n ≤ h'.size (h'.ptr h'.freep) ∨ (n ≤ h'.size h'.freep ∨ Sunk h' F') ∧ ¬ Sunk h F) := by
  obtain ⟨nu, hnu⟩ : ∃ nu, nu = if n < 4096 then 4096 else n := ⟨_, rfl⟩
  have hnu' : n ≤ nu ∧ 0 < nu ∧ nu < 2 ^ 32 := by
    split at hnu <;> omega
  obtain ⟨hgrown, hless⟩ := hok.grow gap hnu'.2.1 hnu'.2.2
  obtain ⟨b, hb⟩ : ∃ b, b = h.brk + gap := ⟨_, rfl⟩
  obtain ⟨g, hg⟩ : ∃ g, g = (h.grow gap (nu * 16)).setSize (h.brk + gap) nu := ⟨_, rfl⟩
  rw [← hg, ← hb, insert_empty_eq] at hgrown
  rw [← hb] at hless hg
  have hsizeb : g.size b = nu := by
    rw [hg, setSize_size_self]
  have hsize : ∀ q ∈ F, g.size q = h.size q := by
    intro q hq
    have := hless q hq
    rw [hg, setSize_size_of_ne (by omega)]
    rfl
  have hfreep' : g.freep ∈ F := by
    rw [hg]
    exact hfreep
  obtain ⟨f, p, hp, hfits, hfree⟩ := hgrown.free_stops hfreep'
  have hmore : ∀ fuel, f ≤ fuel → morecore fuel h n (some gap) = some (p, Malloc.link g b p) := by
    intro fuel hfuel
    unfold morecore
    simp only [← hnu, ← hb, ← hg, hfree fuel hfuel, Option.map_some]
    rfl
  have hpb := hless p hp
  have hup : g.above b ≠ g.ptr p := by
    have := hless _ (hgrown.ring.mem p hp)
    unfold above
    omega
  have hpl := hgrown.mergeUp_apart hp hfits hup
  have hlink : Malloc.link g b p = (mergeDown (mergeUp g b p) b p).setFreep p := rfl
  have hmergep : (mergeUp g b p).size p = h.size p := by
    rw [hpl.size p (mem_free hp), hsize p hp]
  have hmergeb : (mergeUp g b p).size b = nu := by
    rw [hpl.size b (mem_loose (mem_singleton_self b)), hsizeb]
  by_cases hdown : (mergeUp g b p).above p = b
  · refine ⟨f, _, F, hmore, (mergeDown_touch hpl hdown).setFreep p, hp, .inr ⟨?_, ?_⟩⟩
    · have hend : p + 16 * h.size p = b := by
        rw [← hmergep]
        exact hdown
      have hsizep : (Malloc.link g b p).size p = sum (h.size p) nu := by
        rw [hlink, setFreep_size, mergeDown, if_pos hdown, setPtr_size,
          setSize_size_self, hmergep, hmergeb]
      have hlt := hok.layout.size_lt p (mem_free hp)
      show n ≤ (Malloc.link g b p).size p ∨ _
      rw [hsizep]
      by_cases hwrap : h.size p + nu < 2 ^ 32
      · left
        rw [sum, Nat.mod_eq_of_lt hwrap]
        omega
      · right
        have hsum : sum (h.size p) nu + 2 ^ 32 = h.size p + nu := by
          unfold sum
          omega
        intro q hq
        show q + 16 * (Malloc.link g b p).size q < (Malloc.link g b p).brk
        have hbrk : (Malloc.link g b p).brk = b + nu * 16 := by
          rw [hlink, mergeDown, if_pos hdown]
          show (mergeUp g b p).brk = _
          rw [hpl.brk, hg, hb]
          rfl
        rw [hbrk]
        by_cases hqp : q = p
        · rw [hqp, hsizep]
          omega
        · have hqsize : (Malloc.link g b p).size q = h.size q := by
            rw [hlink, setFreep_size, mergeDown, if_pos hdown, setPtr_size,
              setSize_size_of_ne hqp, hpl.size q (mem_free hq), hsize q hq]
          have hbelow := hok.layout.below q (mem_free hq)
          have : h.size q ≤ h.foot q := le_max_right _ _
          omega
    · intro hsunk
      have := hsunk p hp
      unfold above at this hdown
      omega
  · refine ⟨f, _, _, hmore, (mergeDown_apart hpl hdown).setFreep p, mem_insert_of_mem hp, .inl ?_⟩
    have hptr : (Malloc.link g b p).ptr p = b := by
      rw [hlink, setFreep_ptr, mergeDown, if_neg hdown, setPtr_ptr_self]
    show n ≤ (Malloc.link g b p).size ((Malloc.link g b p).ptr p)
    rw [hptr, hlink, setFreep_size, mergeDown, if_neg hdown, setPtr_size, hmergeb]
    exact hnu'.1

/-! ## Handing a block out -/

/-- What a call of `malloc` for `m` bytes leaves: on success one more live block. -/
def Served (base : Nat) (live : Nat → Option Nat) (m r : Nat) (h : Heap) : Prop :=
  ∃ F, h.freep ∈ F ∧
    ((r = 0 ∧ Ok base h live F ∅) ∨
      ∃ b, r = b + 16 ∧ live b = none ∧ Ok base h (update live b (some m)) F ∅)

/-- A block that is large enough is handed out, whole or its upper part. -/
theorem take (hok : Ok base h live F ∅) (hp : p ∈ F) (hn : 0 < n) {m : Nat} (hm : m + 16 ≤ 16 * n)
    (hle : n ≤ h.size (h.ptr p)) :
    Served base live m (Malloc.take h n p (h.ptr p)).1 (Malloc.take h n p (h.ptr p)).2 := by
  obtain ⟨q, hq⟩ : ∃ q, q = h.ptr p := ⟨_, rfl⟩
  rw [← hq] at hle ⊢
  have hqF : q ∈ F := hq ▸ hok.ring.mem p hp
  have hqbase : q ≠ base := by
    rintro rfl
    rw [hok.base_size] at hle
    omega
  have hqp : q ≠ p := by
    -- The list would have only this block, but it has the static header.
    intro heq
    have hself : h.ptr q = q := by
      rw [hq] at heq ⊢
      rw [heq, heq]
    have hwrap := hok.ring.wrap q hqF hself.le base hok.base_mem
    rw [hself] at hwrap
    omega
  unfold Malloc.take
  split
  · next hsize =>
      have hunlink := hok.unlink hp (hq ▸ hqp) (hq ▸ hqbase)
      rw [← hq, insert_empty_eq] at hunlink
      have hgive := hunlink.give (mem_singleton_self q) (n := m) (by
        rw [setPtr_size]
        omega)
      rw [erase_singleton] at hgive
      exact ⟨_, mem_erase.mpr ⟨hqp.symm, hp⟩,
        .inr ⟨q, rfl, hok.free q hqF, hgive.setFreep p⟩⟩
  · next hsize =>
      have hsplit := hok.split hqF hn (by omega)
      rw [insert_empty_eq] at hsplit
      have habove : (h.setSize q (h.size q - n)).above q = q + 16 * (h.size q - n) := by
        rw [above, setSize_size_self]
      have hloose := mem_singleton_self (q + 16 * (h.size q - n))
      have hgive := hsplit.give hloose (n := m) (by
        rw [setSize_size_self]
        exact hm)
      rw [erase_singleton] at hgive
      simp only [habove]
      exact ⟨F, hp, .inr ⟨_, rfl, (hsplit.loose _ hloose).2, hgive.setFreep p⟩⟩

/-- The loop runs to a block that is large enough, or to `freep`. -/
theorem mallocLoop_scan (hring : SortedRing h.ptr F) (n k : Nat) : ∀ p ∈ F,
    h.ptr^[k] (h.ptr p) = h.freep → ∃ j, ∃ q ∈ F,
      (∀ fuel answer, mallocLoop n (fuel + j) h answer p (h.ptr p) =
        mallocLoop n fuel h answer q (h.ptr q)) ∧
      (n ≤ h.size (h.ptr q) ∨ h.size (h.ptr q) < n ∧ h.ptr q = h.freep) := by
  induction k with
  | zero =>
    intro p hp hk
    refine ⟨0, p, hp, fun _ _ => rfl, ?_⟩
    by_cases hle : n ≤ h.size (h.ptr p)
    · exact .inl hle
    · exact .inr ⟨not_le.mp hle, hk⟩
  | succ k ih =>
    intro p hp hk
    by_cases hle : n ≤ h.size (h.ptr p)
    · exact ⟨0, p, hp, fun _ _ => rfl, .inl hle⟩
    · by_cases hfreep : h.ptr p = h.freep
      · exact ⟨0, p, hp, fun _ _ => rfl, .inr ⟨not_le.mp hle, hfreep⟩⟩
      · obtain ⟨j, q, hq, hloop, hstop⟩ := ih (h.ptr p) (hring.mem p hp) hk
        refine ⟨j + 1, q, hq, fun fuel answer => ?_, hstop⟩
        rw [← hloop, ← Nat.add_assoc, mallocLoop, if_neg hle, if_neg hfreep]

/-- The loop returns from `prevp = p` on, with enough fuel. -/
def Returns (base : Nat) (live : Nat → Option Nat) (m n : Nat) (h : Heap) (answer : Nat → Option Nat)
    (p : Nat) : Prop :=
  ∃ f r h', (∀ fuel, f ≤ fuel → mallocLoop n fuel h answer p (h.ptr p) = some (r, h')) ∧
    Served base live m r h'

section Loop

variable {m : Nat} {answer : Nat → Option Nat}

/-- A block of the list that is large enough is taken. -/
theorem returns_take (hok : Ok base h live F ∅) (hp : p ∈ F) (hn : 0 < n) (hm : m + 16 ≤ 16 * n)
    (hle : n ≤ h.size (h.ptr p)) : Returns base live m n h answer p := by
  refine ⟨1, _, _, fun fuel hfuel => ?_, hok.take hp hn hm hle⟩
  obtain ⟨fuel, rfl⟩ := Nat.exists_eq_add_of_le' hfuel
  rw [mallocLoop, if_pos hle]

theorem Returns.scan {j q : Nat} (h' : Returns base live m n h answer q)
    (hloop : ∀ fuel answer, mallocLoop n (fuel + j) h answer p (h.ptr p) =
      mallocLoop n fuel h answer q (h.ptr q)) : Returns base live m n h answer p := by
  obtain ⟨f, r, h'', hret, hserved⟩ := h'
  refine ⟨f + j, r, h'', fun fuel hfuel => ?_, hserved⟩
  obtain ⟨fuel, rfl⟩ := Nat.exists_eq_add_of_le' (show j ≤ fuel by omega)
  rw [hloop]
  exact hret fuel (by omega)

/-- If `freep` is large enough the loop gets there, at the latest. -/
theorem returns_freep (hok : Ok base h live F ∅) (hfreep : h.freep ∈ F) (hp : p ∈ F) (hn : 0 < n)
    (hm : m + 16 ≤ 16 * n) (hle : n ≤ h.size h.freep) : Returns base live m n h answer p := by
  obtain ⟨k, hk⟩ := hok.ring.reach (hok.ring.mem p hp) hfreep
  obtain ⟨j, q, hq, hloop, hstop⟩ := mallocLoop_scan hok.ring n k p hp hk
  refine (hok.returns_take hq hn hm ?_).scan hloop
  rcases hstop with hfit | ⟨hlt, heq⟩
  · exact hfit
  · rw [heq] at hlt
    omega

/-- If the loop returns whatever `morecore` does, it returns. -/
theorem returns_more (hok : Ok base h live F ∅) (hbase : 0 < base) (hfreep : h.freep ∈ F) (hp : p ∈ F)
    (hn : 0 < n) (hlt : n < 2 ^ 32) (hm : m + 16 ≤ 16 * n)
    (hnext : ∀ h' F', Ok base h' live F' ∅ → h'.freep ∈ F' →
      ((n ≤ h'.size h'.freep ∨ Sunk h' F') ∧ ¬ Sunk h F) →
      Returns base live m n h' (fun i => answer (i + 1)) h'.freep) :
    Returns base live m n h answer p := by
  obtain ⟨k, hk⟩ := hok.ring.reach (hok.ring.mem p hp) hfreep
  obtain ⟨j, q, hq, hloop, hstop⟩ := mallocLoop_scan hok.ring n k p hp hk
  refine Returns.scan ?_ hloop
  rcases hstop with hfit | ⟨hsmall, heq⟩
  · exact hok.returns_take hq hn hm hfit
  · cases hans : answer 0 with
    | none =>
      refine ⟨1, 0, h, fun fuel hfuel => ?_, F, hfreep, .inl ⟨rfl, hok⟩⟩
      obtain ⟨fuel, rfl⟩ := Nat.exists_eq_add_of_le' hfuel
      rw [mallocLoop, if_neg (not_le.mpr hsmall), if_pos heq, hans]
      rfl
    | some gap =>
      obtain ⟨f, h', F', hmore, hok', hfreep', hpost⟩ := hok.morecore_grows hfreep hlt gap
      have hret : Returns base live m n h' (fun i => answer (i + 1)) h'.freep := by
        rcases hpost with hfit | hpost
        · exact hok'.returns_take hfreep' hn hm hfit
        · exact hnext h' F' hok' hfreep' hpost
      obtain ⟨f', r, h'', hret, hserved⟩ := hret
      have hne : h'.freep ≠ 0 := by
        have := hok'.layout.base_le _ (mem_free hfreep')
        omega
      refine ⟨max f f' + 1, r, h'', fun fuel hfuel => ?_, hserved⟩
      obtain ⟨fuel, rfl⟩ := Nat.exists_eq_add_of_le' (show 1 ≤ fuel by omega)
      rw [mallocLoop, if_neg (not_le.mpr hsmall), if_pos heq, hans, hmore fuel (by omega)]
      show (if h'.freep = 0 then _ else _) = _
      rw [if_neg hne]
      exact hret fuel (by omega)

/-- **The loop of `malloc` returns.** It calls `morecore` at most twice. -/
theorem returns (hok : Ok base h live F ∅) (hbase : 0 < base) (hfreep : h.freep ∈ F) (hp : p ∈ F)
    (hn : 0 < n) (hlt : n < 2 ^ 32) (hm : m + 16 ≤ 16 * n) : Returns base live m n h answer p := by
  apply hok.returns_more hbase hfreep hp hn hlt hm
  rintro h' F' hok' hfreep' ⟨hfit | hsunk, -⟩
  · exact hok'.returns_freep hfreep' hfreep' hn hm hfit
  · apply hok'.returns_more hbase hfreep' hfreep' hn hlt hm
    rintro _ _ - - ⟨-, hnot⟩
    exact absurd hsunk hnot

end Loop

end Ok

/-! ## More fuel changes nothing -/

theorem free_mono {f f' ap : Nat} {h h' : Heap} (hfree : free f h ap = some h') (hle : f ≤ f') :
    free f' h ap = some h' := by
  obtain ⟨p, hwalk, hlink⟩ := Option.map_eq_some_iff.mp hfree
  exact Option.map_eq_some_iff.mpr ⟨p, walk_mono hwalk hle, hlink⟩

theorem morecore_mono {f f' nu : Nat} {h : Heap} {answer : Option Nat} {x : Nat × Heap}
    (hmore : morecore f h nu answer = some x) (hle : f ≤ f') : morecore f' h nu answer = some x := by
  cases answer with
  | none => exact hmore
  | some gap =>
    obtain ⟨h', hfree, hx⟩ := Option.map_eq_some_iff.mp hmore
    exact Option.map_eq_some_iff.mpr ⟨h', free_mono hfree hle, hx⟩

/-- Fuel beyond what is needed changes nothing. -/
theorem mallocLoop_mono {n f f' p q : Nat} {h : Heap} {answer : Nat → Option Nat} {x : Nat × Heap}
    (hloop : mallocLoop n f h answer p q = some x) (hle : f ≤ f') :
    mallocLoop n f' h answer p q = some x := by
  induction f generalizing f' h answer p q with
  | zero => cases hloop
  | succ f ih =>
    obtain ⟨f', rfl⟩ := Nat.exists_eq_add_of_le' (show 1 ≤ f' by omega)
    have hle' : f ≤ f' := by omega
    unfold mallocLoop at hloop ⊢
    split at hloop
    · next hfit => rw [if_pos hfit, hloop]
    · next hfit =>
        rw [if_neg hfit]
        split at hloop
        · next hfreep =>
            rw [if_pos hfreep]
            cases hmore : morecore f h n (answer 0) with
            | none =>
              rw [hmore] at hloop
              cases hloop
            | some y =>
              rw [hmore] at hloop
              rw [morecore_mono hmore hle']
              obtain ⟨r, h'⟩ := y
              dsimp only at hloop ⊢
              split at hloop
              · next hr => rw [if_pos hr, hloop]
              · next hr =>
                  rw [if_neg hr]
                  exact ih hloop hle'
        · next hfreep =>
            rw [if_neg hfreep]
            exact ih hloop hle'

/-! ## Runs -/

/-- The heap of a program and its live blocks, by the address of their header, with the number of bytes
asked for. -/
structure State where
  heap : Heap
  live : Nat → Option Nat

/-- The program calls `malloc`, which returns `r`; it gives a block back; or it writes into a block. -/
inductive Act where
  | malloc (nbytes : UInt32) (answer : Nat → Option Nat) (r : Nat)
  | free (ap : Nat)
  | store (a : Nat) (v : Header)

/-- A step of the program. -/
inductive Step (base : Nat) : State → Act → State → Prop
  | fail {s fuel nbytes answer h'} (hrun : malloc base fuel s.heap nbytes answer = some (0, h')) :
      Step base s (.malloc nbytes answer 0) ⟨h', s.live⟩
  | malloc {s fuel nbytes answer b h'}
      (hrun : malloc base fuel s.heap nbytes answer = some (b + 16, h')) :
      Step base s (.malloc nbytes answer (b + 16))
        ⟨h', update s.live b (some nbytes.toNat)⟩
  | free {s fuel b n h'} (hlive : s.live b = some n) (hrun : free fuel s.heap (b + 16) = some h') :
      Step base s (.free (b + 16)) ⟨h', update s.live b none⟩
  | store {s b n a v} (hlive : s.live b = some n) (hlow : b + 16 ≤ a) (hhigh : a + 16 ≤ b + 16 + n) :
      Step base s (.store a v) { s with heap.mem := update s.heap.mem a v }

/-- A program that has not called `malloc` yet. -/
def State.start (mem : Nat → Header) (brk : Nat) : State := ⟨⟨mem, 0, brk, []⟩, fun _ => none⟩

/-- Before the first call of `malloc` there is no list. -/
def Inv (base : Nat) (s : State) : Prop :=
  (s.heap.freep = 0 ∧ base + 16 ≤ s.heap.brk ∧ ∀ b, s.live b = none) ∨
    ∃ F, Ok base s.heap s.live F ∅ ∧ s.heap.freep ∈ F

variable {base : Nat} {s s' : State} {a : Act} {as : List Act}

/-- The first call of `malloc` sets the static header up. -/
theorem Ok.first {h : Heap} {live : Nat → Option Nat} (hbrk : base + 16 ≤ h.brk)
    (hlive : ∀ b, live b = none) :
    Ok base (((h.setPtr base base).setSize base 0).setFreep base) live {base} ∅ := by
  have hblocks : blocks live {base} ∅ = {base} := by
    ext x
    simp [blocks, hlive]
  have hsize : (((h.setPtr base base).setSize base 0).setFreep base).size base = 0 := by simp
  have hfoot : (((h.setPtr base base).setSize base 0).setFreep base).foot base = 1 := by
    rw [foot, hsize]
    rfl
  refine ⟨⟨?_, ?_, ?_, ?_, ?_⟩, SortedRing.singleton (by simp), mem_singleton_self base, hsize,
    ?_, fun b hb => absurd hb (notMem_empty b), fun b _ => hlive b, ?_⟩
  · intro b hb
    rw [hblocks, Set.mem_singleton_iff] at hb
    exact hb.ge
  · intro p hp q hq hlt
    rw [hblocks, Set.mem_singleton_iff] at hp hq
    omega
  · intro b hb hne
    rw [hblocks, Set.mem_singleton_iff] at hb
    exact absurd hb hne
  · intro b hb
    rw [hblocks, Set.mem_singleton_iff] at hb
    rw [hb, hfoot]
    exact hbrk
  · intro b hb
    rw [hblocks, Set.mem_singleton_iff] at hb
    rw [hb, hsize]
    decide
  · intro p hp q hq hne
    exact absurd (mem_singleton.mp hp) hne
  · intro b n hb
    rw [hlive] at hb
    cases hb

/-- **`malloc` returns.** -/
theorem Inv.malloc_returns (h : Inv base s) (hbase : 0 < base) (nbytes : UInt32)
    (answer : Nat → Option Nat) : ∃ f r h',
      (∀ fuel, f ≤ fuel → malloc base fuel s.heap nbytes answer = some (r, h')) ∧
      Ok.Served base s.live nbytes.toNat r h' := by
  have hlt : nbytes.toNat < 2 ^ 32 := nbytes.toNat_lt
  have hn : (nbytes.toNat + 16 - 1) / 16 + 1 < 2 ^ 32 := by omega
  have hm : nbytes.toNat + 16 ≤ 16 * ((nbytes.toNat + 16 - 1) / 16 + 1) := by omega
  unfold malloc
  rcases h with ⟨hfreep, hbrk, hlive⟩ | ⟨F, hok, hfreep⟩
  · simp only [hfreep, if_true]
    have hmem := mem_singleton_self base
    exact (Ok.first hbrk hlive).returns hbase hmem hmem (Nat.succ_pos _) hn hm
  · have hne : s.heap.freep ≠ 0 := by
      have := hok.layout.base_le _ (Ok.mem_free hfreep)
      omega
    simp only [hne, if_false]
    exact hok.returns hbase hfreep hfreep (Nat.succ_pos _) hn hm

/-- **`free` returns** when it gets a live block. -/
theorem Inv.free_returns (h : Inv base s) {b n : Nat} (hlive : s.live b = some n) : ∃ f h',
    (∀ fuel, f ≤ fuel → free fuel s.heap (b + 16) = some h') ∧
      ∃ F, Ok base h' (update s.live b none) F ∅ ∧ h'.freep ∈ F := by
  rcases h with ⟨-, -, hnone⟩ | ⟨F, hok, hfreep⟩
  · rw [hnone] at hlive
    cases hlive
  · have hdrop := hok.drop hlive
    rw [insert_empty_eq] at hdrop
    obtain ⟨f, p, hp, hfits, hfree⟩ := hdrop.free_stops hfreep
    obtain ⟨F', hok', hp'⟩ := hdrop.link hp hfits
    exact ⟨f, _, hfree, F', hok', hp'⟩

theorem malloc_mono {f f' : Nat} {h : Heap} {nbytes : UInt32} {answer : Nat → Option Nat}
    {x : Nat × Heap} (hrun : malloc base f h nbytes answer = some x) (hle : f ≤ f') :
    malloc base f' h nbytes answer = some x := mallocLoop_mono hrun hle

/-- Every call keeps the heap in order. -/
theorem Inv.step (h : Inv base s) (hbase : 0 < base) (hstep : Step base s a s') : Inv base s' := by
  cases hstep with
  | @fail fuel nbytes answer h' hrun =>
    obtain ⟨f, r, h'', hret, F, hfreep, hserved⟩ := h.malloc_returns hbase nbytes answer
    have heq := hret (max f fuel) (le_max_left _ _)
    rw [malloc_mono hrun (le_max_right _ _)] at heq
    cases heq
    rcases hserved with ⟨-, hok⟩ | ⟨b, hb, -⟩
    · exact .inr ⟨F, hok, hfreep⟩
    · omega
  | @malloc fuel nbytes answer b h' hrun =>
    obtain ⟨f, r, h'', hret, F, hfreep, hserved⟩ := h.malloc_returns hbase nbytes answer
    have heq := hret (max f fuel) (le_max_left _ _)
    rw [malloc_mono hrun (le_max_right _ _)] at heq
    cases heq
    rcases hserved with ⟨hb, -⟩ | ⟨b', hb, -, hok⟩
    · omega
    · cases Nat.add_right_cancel hb
      exact .inr ⟨F, hok, hfreep⟩
  | @free fuel b n h' hlive hrun =>
    obtain ⟨f, h'', hret, F, hok, hfreep⟩ := h.free_returns hlive
    have heq := hret (max f fuel) (le_max_left _ _)
    rw [free_mono hrun (le_max_right _ _)] at heq
    cases heq
    exact .inr ⟨F, hok, hfreep⟩
  | @store b n a v hlive hlow hhigh =>
    rcases h with ⟨-, -, hnone⟩ | ⟨F, hok, hfreep⟩
    · rw [hnone] at hlive
      cases hlive
    · -- No header lies inside a live block.
      have hne : ∀ x ∈ blocks s.live F ∅, x ≠ a := by
        rintro x hx rfl
        have hapart := hok.layout.apart b (Ok.mem_live hlive) x hx (by omega)
        have henough := hok.enough b n hlive
        have : s.heap.size b ≤ s.heap.foot b := le_max_right _ _
        omega
      have hmem : ∀ x ∈ blocks s.live F ∅, update s.heap.mem a v x = s.heap.mem x :=
        fun x hx => update_of_ne (hne x hx) _ _
      refine .inr ⟨F, hok.congr ?_ ?_ rfl rfl, hfreep⟩
      · exact fun x hx => congrArg Header.ptr (hmem x (Ok.mem_free hx))
      · exact fun x hx => congrArg Header.size (hmem x hx)

theorem Inv.run {mem : Nat → Header} {brk : Nat} (hbase : 0 < base) (hbrk : base + 16 ≤ brk)
    (hrun : Transition.Run (Step base) (.start mem brk) as s) : Inv base s :=
  hrun.invariant (.inl ⟨rfl, hbrk, fun _ => rfl⟩) fun _ _ _ h hstep => h.step hbase hstep

/-- **The free list and the live blocks.** In every run of a program: the nodes reached from `freep` form
a sorted ring; they are apart from each other and from the live blocks, and except for the static
header no two of them touch; live blocks are apart, have room for what was asked for, and lie in memory
from `sbrk`; and the next call of `malloc`, and of `free` with a live block, returns. -/
theorem heap_blocks_apart {mem : Nat → Header} {brk : Nat} (hbase : 0 < base) (hbrk : base + 16 ≤ brk)
    (hrun : Transition.Run (Step base) (.start mem brk) as s) :
    (s.heap.freep ≠ 0 → ∃ F : Finset Nat, SortedRing s.heap.ptr F ∧
      (∀ q, q ∈ F ↔ ∃ k, s.heap.ptr^[k] s.heap.freep = q) ∧
      (∀ p ∈ F, ∀ q ∈ F, p < q → s.heap.above p ≤ q ∧ (p ≠ base → s.heap.above p ≠ q)) ∧
      ∀ p ∈ F, ∀ b n, s.live b = some n →
        (p < b ∧ s.heap.above p ≤ b) ∨ (b < p ∧ s.heap.above b ≤ p)) ∧
    (∀ b n, s.live b = some n → b + 16 + n ≤ s.heap.above b ∧
      (∀ x, b ≤ x → x < s.heap.above b → s.heap.Obtained x) ∧
      ∀ b' n', s.live b' = some n' → b < b' → s.heap.above b ≤ b') ∧
    (∀ nbytes answer, ∃ f, ∀ fuel, f ≤ fuel → (malloc base fuel s.heap nbytes answer).isSome) ∧
    ∀ b n, s.live b = some n → ∃ f, ∀ fuel, f ≤ fuel → (free fuel s.heap (b + 16)).isSome := by
  have hinv := Inv.run hbase hbrk hrun
  refine ⟨?_, ?_, ?_, ?_⟩
  · intro hne
    rcases hinv with ⟨hzero, -⟩ | ⟨F, hok, hfreep⟩
    · exact absurd hzero hne
    have habove : ∀ p ∈ blocks s.live F ∅, ∀ q ∈ blocks s.live F ∅, p < q → s.heap.above p ≤ q := by
      intro p hp q hq hlt
      have := hok.layout.apart p hp q hq hlt
      have : s.heap.size p ≤ s.heap.foot p := le_max_right _ _
      unfold above
      omega
    refine ⟨F, hok.ring, ?_, ?_, ?_⟩
    · intro q
      refine ⟨fun hq => hok.ring.reach hfreep hq, ?_⟩
      rintro ⟨k, rfl⟩
      exact hok.ring.iterate_mem hfreep k
    · intro p hp q hq hlt
      exact ⟨habove p (Ok.mem_free hp) q (Ok.mem_free hq) hlt,
        fun hpbase => hok.coalesced p hp q hq hpbase hlt.ne⟩
    · intro p hp b n hb
      have hpb : p ≠ b := by
        rintro rfl
        rw [hok.free p hp] at hb
        cases hb
      rcases lt_or_gt_of_ne hpb with hlt | hgt
      · exact .inl ⟨hlt, habove p (Ok.mem_free hp) b (Ok.mem_live hb) hlt⟩
      · exact .inr ⟨hgt, habove b (Ok.mem_live hb) p (Ok.mem_free hp) hgt⟩
  · intro b n hb
    rcases hinv with ⟨-, -, hnone⟩ | ⟨F, hok, hfreep⟩
    · rw [hnone] at hb
      cases hb
    have henough := hok.enough b n hb
    have hfoot : s.heap.size b ≤ s.heap.foot b := le_max_right _ _
    have hbbase : b ≠ base := by
      rintro rfl
      rw [hok.free b hok.base_mem] at hb
      cases hb
    refine ⟨?_, ?_, ?_⟩
    · unfold above
      omega
    · intro x hlow hhigh
      apply hok.layout.inside b (Ok.mem_live hb) hbbase x hlow
      unfold above at hhigh
      omega
    · intro b' n' hb' hlt
      have := hok.layout.apart b (Ok.mem_live hb) b' (Ok.mem_live hb') hlt
      unfold above
      omega
  · intro nbytes answer
    obtain ⟨f, r, h', hret, -⟩ := hinv.malloc_returns hbase nbytes answer
    exact ⟨f, fun fuel hfuel => by rw [hret fuel hfuel]; rfl⟩
  · intro b n hb
    obtain ⟨f, h', hret, -⟩ := hinv.free_returns hb
    exact ⟨f, fun fuel hfuel => by rw [hret fuel hfuel]; rfl⟩

/-- The first `malloc` of a program takes ten bytes from the end of a new region at 200, the second
one twenty bytes below them; then the first block is freed. -/
theorem heap_blocks_apart_freed : ∃ s, Transition.Run (Step 100) (.start (fun _ => ⟨7, 7⟩) 200)
      [.malloc 10 (fun _ => some 0) 65720, .malloc 20 (fun _ => some 0) 65672, .free 65720] s ∧
    s.live 65656 = some 20 ∧ 65656 + 16 + 20 ≤ s.heap.above 65656 ∧
    ∃ F, SortedRing s.heap.ptr F ∧ 65704 ∈ F ∧ s.heap.above 65656 ≤ 65704 := by
  have hstart : Transition.Run (Step 100) (.start (fun _ => ⟨7, 7⟩) 200) [] _ := .nil
  have hfirst := hstart.snoc (@Step.malloc 100 _ 3 10 (fun _ => some 0) 65704 _ rfl)
  have hsecond := hfirst.snoc (@Step.malloc 100 _ 3 20 (fun _ => some 0) 65656 _ rfl)
  have hrun := hsecond.snoc (@Step.free 100 _ 3 65704 10 _ rfl rfl)
  obtain ⟨hring, hlive, -⟩ := heap_blocks_apart (by decide) (by decide) hrun
  obtain ⟨F, hF, hmem, -, hapart⟩ := hring (by decide)
  have hin := (hmem 65704).mpr ⟨1, rfl⟩
  have hroom := (hapart 65704 hin 65656 20 rfl).resolve_left (by decide)
  exact ⟨_, hrun, rfl, (hlive 65656 20 rfl).1, F, hF, hin, hroom.2⟩

end Xv6.Malloc
