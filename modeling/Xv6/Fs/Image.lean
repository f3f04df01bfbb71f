import Xv6.Fs.Inode

/-!
# What the blocks of a disk hold

The inodes, the bits of the bitmap and the entries of the indirect blocks, as functions of the blocks,
and how they change with a block. The inodes lie below the bitmap and the bitmap below the first data
block, so a change to one of them leaves the others alone.
-/

namespace Xv6

open TraceM Function

/-! ## Inodes in their blocks -/

namespace Dinode

theorem loShort_shorts (lo hi : Int16) : loShort (shorts lo hi) = lo := by
  unfold loShort shorts
  have : UInt16.ofNat (lo.toUInt16.toNat + hi.toUInt16.toNat * 2 ^ 16) = lo.toUInt16 := by
    apply UInt16.toNat_inj.mp
    have := lo.toUInt16.toNat_lt
    simp
  rw [this]
  exact Int16.toInt16_toUInt16 lo

theorem hiShort_shorts (lo hi : Int16) : hiShort (shorts lo hi) = hi := by
  unfold hiShort shorts
  have hlt := lo.toUInt16.toNat_lt
  have hdiv : (lo.toUInt16.toNat + hi.toUInt16.toNat * 2 ^ 16) / 2 ^ 16 = hi.toUInt16.toNat := by omega
  rw [hdiv, UInt16.ofNat_toNat]
  exact Int16.toInt16_toUInt16 hi

theorem shorts_lt (lo hi : Int16) : shorts lo hi < 2 ^ 32 := by
  have := lo.toUInt16.toNat_lt
  have := hi.toUInt16.toNat_lt
  unfold shorts
  omega

theorem toWords_length (d : Dinode) : d.toWords.length = 16 := by
  simp [toWords]

theorem toWords_lt (d : Dinode) : ∀ v ∈ d.toWords, v < 2 ^ 32 := by
  intro v hv
  simp only [toWords, List.mem_cons, List.mem_ofFn] at hv
  rcases hv with rfl | rfl | rfl | ⟨i, rfl⟩
  · exact shorts_lt _ _
  · exact shorts_lt _ _
  · exact d.size.toNat_lt
  · exact (d.addrs i).toNat_lt

/-- The words of an inode in a block. -/
theorem word_toBlock (d : Dinode) (blk : Block) {k : Nat} (hk : k < ipb) {j v : Nat}
    (hj : d.toWords[j]? = some v) : Words.word (d.toBlock blk k) (16 * k + j) = v := by
  refine Words.word_setWords_get _ _ ?_ d.toWords_lt hj
  rw [toWords_length]
  unfold ipb bsize at *
  omega

theorem word_toBlock_addrs (d : Dinode) (blk : Block) {k : Nat} (hk : k < ipb)
    (i : Fin (ndirect + 1)) : Words.word (d.toBlock blk k) (16 * k + 3 + i) = (d.addrs i).toNat := by
  rw [Nat.add_assoc]
  apply word_toBlock d blk hk
  rw [Nat.add_comm]
  unfold toWords
  rw [List.getElem?_cons_succ, List.getElem?_cons_succ, List.getElem?_cons_succ, List.getElem?_ofFn,
    dif_pos i.isLt]

/-- **Writing and reading an inode.** -/
theorem ofBlock_toBlock (d : Dinode) (blk : Block) {k : Nat} (hk : k < ipb) :
    ofBlock (d.toBlock blk k) k = d := by
  have h₀ : Words.word (d.toBlock blk k) (16 * k) = shorts d.type d.major :=
    d.word_toBlock blk hk (j := 0) rfl
  have h₁ : Words.word (d.toBlock blk k) (16 * k + 1) = shorts d.minor d.nlink :=
    d.word_toBlock blk hk rfl
  have h₂ : Words.word (d.toBlock blk k) (16 * k + 2) = d.size.toNat := d.word_toBlock blk hk rfl
  unfold ofBlock
  simp only [h₀, h₁, h₂, loShort_shorts, hiShort_shorts, word_toBlock_addrs d blk hk,
    UInt32.ofNat_toNat]

/-- The other inodes of the block stay. -/
theorem ofBlock_toBlock_of_ne (d : Dinode) (blk : Block) {k j : Nat} (h : j ≠ k) :
    ofBlock (d.toBlock blk k) j = ofBlock blk j := by
  have hword : ∀ t, t < 16 → Words.word (d.toBlock blk k) (16 * j + t) = Words.word blk (16 * j + t) := by
    intro t ht
    rcases Nat.lt_or_gt_of_ne h with hlt | hlt
    · exact Words.word_setWords_of_lt _ _ (by omega)
    · exact Words.word_setWords_of_ge _ _ (by rw [toWords_length]; omega)
  have h₀ : Words.word (d.toBlock blk k) (16 * j) = Words.word blk (16 * j) := hword 0 (by decide)
  have haddr : ∀ i : Fin (ndirect + 1), Words.word (d.toBlock blk k) (16 * j + 3 + i) =
      Words.word blk (16 * j + 3 + i) := by
    intro i
    rw [Nat.add_assoc]
    apply hword
    have := i.isLt
    unfold ndirect at this
    omega
  unfold ofBlock
  simp only [h₀, hword 1 (by decide), hword 2 (by decide), haddr]

end Dinode

/-! ## Regions -/

namespace Superblock

variable (sb : Superblock)

theorem iblock_lt {inum : Nat} (h : inum < sb.ninodes) : sb.iblock inum < sb.bmapstart := by
  obtain ⟨hle, hfit⟩ := sb.inodes_fit
  have : inum / ipb < sb.bmapstart - sb.inodestart :=
    (Nat.div_lt_iff_lt_mul (by decide)).mpr (Nat.lt_of_lt_of_le h hfit)
  unfold iblock
  omega

theorem bmapstart_le (b : Nat) : sb.bmapstart ≤ sb.bblock b := Nat.le_add_left ..

theorem bblock_lt {b : Nat} (h : b < sb.size) : sb.bblock b < sb.dataStart := by
  obtain ⟨hle, hfit⟩ := sb.bitmap_fit
  have : b / bpb < sb.size - sb.nblocks - sb.bmapstart :=
    (Nat.div_lt_iff_lt_mul (by decide)).mpr (Nat.lt_of_lt_of_le h hfit)
  unfold bblock dataStart
  omega

theorem bmapstart_le_dataStart : sb.bmapstart ≤ sb.dataStart := sb.bitmap_fit.1

end Superblock

namespace Files

variable (sb : Superblock)

/-- The inodes on disk. -/
def ino (s : Files) (inum : Nat) : Dinode :=
  if inum < sb.ninodes then .ofBlock (s.block (sb.iblock inum)) (inum % ipb) else .zero

/-- The bit of a block in the bitmap. -/
def marked (s : Files) (b : Nat) : Bool := Bits.bit (s.block (sb.bblock b)) (b % bpb)

/-- A block as an array of block numbers. -/
def entry (s : Files) (a : UInt32) (j : Nat) : UInt32 := UInt32.ofNat (Words.word (s.block a.toNat) j)

/-- The blocks that the bitmap marks as used. -/
def used (s : Files) : Set UInt32 := { a | a.toNat < sb.size ∧ s.marked sb a.toNat = true }

variable {sb} {s s' : Files} {b : Nat} {data : Block}

theorem setBlock_block_self : (s.setBlock b data).block b = data := update_self ..

theorem setBlock_block_of_ne {x : Nat} (h : x ≠ b) : (s.setBlock b data).block x = s.block x :=
  update_of_ne h ..

theorem ino_of_lt {inum : Nat} (h : inum < sb.ninodes) :
    s.ino sb inum = .ofBlock (s.block (sb.iblock inum)) (inum % ipb) := if_pos h

/-- Blocks from the bitmap on hold no inodes. -/
theorem setBlock_ino (h : sb.bmapstart ≤ b) : (s.setBlock b data).ino sb = s.ino sb := by
  funext inum
  unfold ino
  split
  · next hlt =>
      have := sb.iblock_lt hlt
      rw [setBlock_block_of_ne (by omega)]
  · rfl

/-- Blocks outside of the bitmap hold no marks. -/
theorem setBlock_used (h : b < sb.bmapstart ∨ sb.dataStart ≤ b) :
    (s.setBlock b data).used sb = s.used sb := by
  ext a
  simp only [used, marked, Set.mem_ofPred_eq]
  refine and_congr_right fun hlt => ?_
  have hge := sb.bmapstart_le a.toNat
  have hbb := sb.bblock_lt hlt
  rw [setBlock_block_of_ne (by omega)]

/-- Only writes to the bitmap change which blocks are marked. -/
theorem marked_setBlock {x : Nat} (hx : x < sb.size) (h : b < sb.bmapstart ∨ sb.dataStart ≤ b) :
    (s.setBlock b data).marked sb x = s.marked sb x := by
  have hge := sb.bmapstart_le x
  have hbb := sb.bblock_lt hx
  unfold marked
  rw [setBlock_block_of_ne (by omega)]

/-- Two blocks with one bit are one block. -/
theorem bit_inj {x y : Nat} (hb : sb.bblock x = sb.bblock y) (hm : x % bpb = y % bpb) : x = y := by
  have hx := Nat.div_add_mod x bpb
  have hy := Nat.div_add_mod y bpb
  unfold Superblock.bblock at hb
  have hdiv : x / bpb = y / bpb := by omega
  rw [hdiv, hm] at hx
  omega

/-- Setting a bit marks one block. -/
theorem marked_setBit {x y : Nat} :
    (s.setBlock (sb.bblock x) (Bits.setBit (s.block (sb.bblock x)) (x % bpb))).marked sb y =
      (decide (y = x) || s.marked sb y) := by
  have hm : x % bpb / 8 < bsize := by
    have : x % bpb < bpb := Nat.mod_lt _ (by decide)
    unfold bpb bsize at *
    omega
  unfold marked
  by_cases hb : sb.bblock y = sb.bblock x
  · rw [hb, setBlock_block_self]
    by_cases hy : y = x
    · subst hy
      simp [Bits.bit_setBit_self _ hm]
    · have hne : y % bpb ≠ x % bpb := fun h => hy (bit_inj hb h)
      simp [hy, Bits.bit_setBit_of_ne _ hne]
  · have hy : y ≠ x := by
      rintro rfl
      exact hb rfl
    rw [setBlock_block_of_ne hb]
    simp [hy]

/-- Clearing a bit unmarks one block. -/
theorem marked_clearBit {x y : Nat} :
    (s.setBlock (sb.bblock x) (Bits.clearBit (s.block (sb.bblock x)) (x % bpb))).marked sb y =
      (!decide (y = x) && s.marked sb y) := by
  unfold marked
  by_cases hb : sb.bblock y = sb.bblock x
  · rw [hb, setBlock_block_self]
    by_cases hy : y = x
    · subst hy
      simp [Bits.bit_clearBit_self]
    · have hne : y % bpb ≠ x % bpb := fun h => hy (bit_inj hb h)
      simp [hy, Bits.bit_clearBit_of_ne _ hne]
  · have hy : y ≠ x := by
      rintro rfl
      exact hb rfl
    rw [setBlock_block_of_ne hb]
    simp [hy]

/-- **An inode written to its block.** -/
theorem ino_toBlock {inum : Nat} (h : inum < sb.ninodes) (d : Dinode) :
    (s.setBlock (sb.iblock inum) (d.toBlock (s.block (sb.iblock inum)) (inum % ipb))).ino sb =
      update (s.ino sb) inum d := by
  funext x
  by_cases hx : x = inum
  · subst hx
    rw [update_self, ino_of_lt h, setBlock_block_self]
    exact Dinode.ofBlock_toBlock d _ (Nat.mod_lt _ (by decide))
  · rw [update_of_ne hx]
    unfold ino
    split
    · by_cases hb : sb.iblock x = sb.iblock inum
      · have hne : x % ipb ≠ inum % ipb := by
          intro hm
          have h₁ := Nat.div_add_mod x ipb
          have h₂ := Nat.div_add_mod inum ipb
          unfold Superblock.iblock at hb
          have hdiv : x / ipb = inum / ipb := by omega
          rw [hdiv, hm] at h₁
          omega
        rw [hb, setBlock_block_self]
        exact Dinode.ofBlock_toBlock_of_ne d _ hne
      · rw [setBlock_block_of_ne hb]
    · rfl

end Files

end Xv6
