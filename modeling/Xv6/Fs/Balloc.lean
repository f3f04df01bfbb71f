import Xv6.Fs.Image
import Xv6.Lib.Ownership

/-!
# The block allocator

`balloc` hands out a block that is not marked, zeroed, and marks it; `bfree` takes the mark away. As
long as all blocks below the first data block are marked, `balloc` hands out data blocks only.
-/

namespace Xv6

open TraceM Ownership List

/-- What an event says about the owner of a block. -/
def FilesEvent.change : FilesEvent → Option (Change UInt32)
  | .logWrite _ => none
  | .balloc a => some (.take a)
  | .bfree a => some (.give a)

/-- The blocks handed out and taken back. -/
def changes (l : List FilesEvent) : List (Change UInt32) := l.filterMap FilesEvent.change

theorem changes_append (l l' : List FilesEvent) : changes (l ++ l') = changes l ++ changes l' :=
  filterMap_append

theorem logBlock_run (b : Nat) (data : Block) (s : Files) :
    logBlock b data s = .ok ((), s.setBlock b data, [.logWrite b]) := rfl

/-- The data blocks. -/
def dataBlocks (sb : Superblock) : Set UInt32 := { a | sb.dataStart ≤ a.toNat ∧ a.toNat < sb.size }

/-- The blocks of the log, the inodes and the bitmap are marked as used. -/
def MetaMarked (sb : Superblock) (s : Files) : Prop := ∀ b, b < sb.dataStart → s.marked sb b = true

namespace Files

variable {sb : Superblock} {s s' : Files} {a : UInt32}

/-- Only writes to the bitmap can unmark a block of metadata. -/
theorem metaMarked_setBlock (h : MetaMarked sb s) {b : Nat} {data : Block}
    (hb : b < sb.bmapstart ∨ sb.dataStart ≤ b) : MetaMarked sb (s.setBlock b data) := by
  intro x hx
  have := Nat.sub_le sb.size sb.nblocks
  rw [marked_setBlock (lt_of_lt_of_le hx this) hb]
  exact h x hx

/-- What `balloc` does when it finds a block. -/
structure Allocated (sb : Superblock) (s s' : Files) (a : UInt32) : Prop where
  ne_zero : a ≠ 0
  data : a ∈ dataBlocks sb
  fresh : a ∉ s.used sb
  inode : s'.inode = s.inode
  ino : s'.ino sb = s.ino sb
  used : s'.used sb = insert a (s.used sb)
  metaMarked : MetaMarked sb s'
  zero : ∀ j, s'.entry a j = 0
  block : ∀ x, sb.dataStart ≤ x → x ≠ a.toNat → s'.block x = s.block x

/-- What `bfree` does. -/
structure Freed (sb : Superblock) (s s' : Files) (a : UInt32) : Prop where
  inode : s'.inode = s.inode
  ino : s'.ino sb = s.ino sb
  used : s'.used sb = s.used sb \ {a}
  metaMarked : MetaMarked sb s'
  block : ∀ x, sb.dataStart ≤ x → s'.block x = s.block x

theorem dataStart_le_size (sb : Superblock) : sb.dataStart ≤ sb.size := Nat.sub_le ..

/-- A block with its mark set, and zeroed. -/
theorem allocated (hm : MetaMarked sb s) {x : Nat} (hx : x < sb.size)
    (hfree : s.marked sb x = false) :
    Allocated sb s ((s.setBlock (sb.bblock x)
      (Bits.setBit (s.block (sb.bblock x)) (x % bpb))).setBlock x fun _ => 0) (UInt32.ofNat x) := by
  have hlt := sb.size_lt
  have hval : (UInt32.ofNat x).toNat = x := by
    rw [UInt32.toNat_ofNat']
    exact Nat.mod_eq_of_lt (by omega)
  have hdata : sb.dataStart ≤ x := by
    by_contra hlow
    rw [hm x (Nat.not_le.mp hlow)] at hfree
    cases hfree
  have hbb := sb.bblock_lt hx
  have hbm := sb.bmapstart_le x
  have hle := sb.bmapstart_le_dataStart
  have hmarked : ∀ y, y < sb.size → ((s.setBlock (sb.bblock x)
      (Bits.setBit (s.block (sb.bblock x)) (x % bpb))).setBlock x fun _ => 0).marked sb y =
        (decide (y = x) || s.marked sb y) := by
    intro y hy
    rw [marked_setBlock hy (.inr hdata), marked_setBit]
  refine ⟨?_, ?_, ?_, rfl, ?_, ?_, ?_, ?_, ?_⟩
  · intro h0
    rw [h0] at hval
    have : x = 0 := hval.symm
    omega
  · show _ ≤ (UInt32.ofNat x).toNat ∧ (UInt32.ofNat x).toNat < _
    rw [hval]
    exact ⟨hdata, hx⟩
  · rintro ⟨-, hmark⟩
    rw [hval, hfree] at hmark
    cases hmark
  · rw [setBlock_ino (by omega), setBlock_ino hbm]
  · ext c
    simp only [used, Set.mem_ofPred_eq, Set.mem_insert_iff]
    constructor
    · rintro ⟨hc, hmark⟩
      rw [hmarked _ hc, Bool.or_eq_true, decide_eq_true_eq] at hmark
      rcases hmark with hcx | hmark
      · left
        rw [← hcx, UInt32.ofNat_toNat]
      · exact .inr ⟨hc, hmark⟩
    · rintro (rfl | ⟨hc, hmark⟩)
      · rw [hval]
        refine ⟨hx, ?_⟩
        rw [hmarked x hx]
        simp
      · refine ⟨hc, ?_⟩
        rw [hmarked _ hc, hmark, Bool.or_true]
  · intro b hb
    have := dataStart_le_size sb
    rw [hmarked b (by omega), hm b hb, Bool.or_true]
  · intro j
    unfold entry
    rw [hval, setBlock_block_self, Words.word_zero]
    rfl
  · intro y hy hne
    rw [hval] at hne
    rw [setBlock_block_of_ne hne, setBlock_block_of_ne (by omega)]

/-- The loop of `balloc` over blocks of the bitmap. -/
theorem ballocFrom_spec (hm : MetaMarked sb s) (bs : List Nat) (hbs : ∀ b ∈ bs, bpb ∣ b) :
    Returns (ballocFrom sb bs) (fun a s' l => (a = 0 ∧ s' = s ∧ l = []) ∨
      (Allocated sb s s' a ∧ changes l = [.take a])) s := by
  induction bs with
  | nil => exact .ret (.inl ⟨rfl, rfl, rfl⟩)
  | cons b bs ih =>
    unfold ballocFrom
    apply Returns.seq_get
    dsimp only
    split
    · next bi hbi =>
        have hfound := firstIdx_holds hbi
        simp only [Bool.and_eq_true, decide_eq_true_eq, Bool.not_eq_eq_eq_not, Bool.not_true]
          at hfound
        obtain ⟨k, rfl⟩ := hbs b mem_cons_self
        have hdiv : (bpb * k + bi) / bpb = k := by
          rw [Nat.mul_add_div (by decide), Nat.div_eq_of_lt bi.isLt, Nat.add_zero]
        have hmod : (bpb * k + bi) % bpb = bi := by
          rw [Nat.mul_add_mod, Nat.mod_eq_of_lt bi.isLt]
        have hbb : sb.bblock (bpb * k) = sb.bblock (bpb * k + bi) := by
          unfold Superblock.bblock
          rw [hdiv, Nat.mul_div_cancel_left _ (by decide)]
        have hfree : s.marked sb (bpb * k + bi) = false := by
          unfold marked
          rw [← hbb, hmod]
          exact hfound.2
        have hall := allocated hm hfound.1 hfree
        rw [← hbb, hmod] at hall
        exact ⟨_, _, _, rfl, .inr ⟨hall, rfl⟩⟩
    · exact ih fun b hb => hbs b (mem_cons_of_mem _ hb)

/-- **`balloc`** returns zero and changes nothing, or hands out a data block that was not marked. -/
theorem balloc_spec (hm : MetaMarked sb s) :
    Returns (balloc sb) (fun a s' l => (a = 0 ∧ s' = s ∧ l = []) ∨
      (Allocated sb s s' a ∧ changes l = [.take a])) s := by
  apply ballocFrom_spec hm
  intro b hb
  obtain ⟨k, -, rfl⟩ := mem_map.mp hb
  exact Nat.dvd_mul_left ..

/-- When the loop of `balloc` finds nothing, all blocks it looked at are marked. -/
theorem ballocFrom_full (hm : MetaMarked sb s) (bs : List Nat) (hbs : ∀ b ∈ bs, bpb ∣ b)
    {s' : Files} {l : List FilesEvent} (h : ballocFrom sb bs s = .ok (0, s', l)) :
    ∀ b ∈ bs, ∀ i, i < bpb → b + i < sb.size → s.marked sb (b + i) = true := by
  induction bs with
  | nil => exact fun b hb => absurd hb not_mem_nil
  | cons c bs ih =>
    obtain ⟨_, _, _, hrun, hspec⟩ := ballocFrom_spec hm (c :: bs) hbs
    rw [h] at hrun
    cases hrun
    have hzero : ¬ Allocated sb s s' 0 := fun ha => ha.ne_zero rfl
    obtain ⟨k, rfl⟩ := hbs c mem_cons_self
    unfold ballocFrom at h
    rw [get_bind_apply] at h
    cases hbi : ballocIn sb (s.block (sb.bblock (bpb * k))) (bpb * k) with
    | some bi =>
      -- the block found is not zero
      rw [hbi] at h
      rcases hspec with ⟨-, hs, hl⟩ | ⟨ha, -⟩
      · rw [hl] at h
        change Except.ok (_, _, _ :: _) = _ at h
        have hevents := congrArg (fun r => r.2.2) (Except.ok.inj h)
        cases hevents
      · exact absurd ha hzero
    | none =>
      rw [hbi] at h
      intro b hb i hi hlt
      rcases mem_cons.mp hb with rfl | hb
      · have hnone := firstIdx_eq_none.mp hbi ⟨i, hi⟩
        simp only [Bool.and_eq_false_iff, decide_eq_false_iff_not, Bool.not_eq_false'] at hnone
        rcases hnone with hge | hbit
        · exact absurd hlt hge
        · unfold marked Superblock.bblock
          rw [Nat.mul_add_div (by decide), Nat.div_eq_of_lt hi, Nat.add_zero, Nat.mul_add_mod,
            Nat.mod_eq_of_lt hi]
          unfold Superblock.bblock at hbit
          rw [Nat.mul_div_cancel_left _ (by decide)] at hbit
          exact hbit
      · exact ih (fun b hb => hbs b (mem_cons_of_mem _ hb)) h b hb i hi hlt

/-- **`balloc` fails** on a full disk only. -/
theorem balloc_full (hm : MetaMarked sb s) :
    Returns (balloc sb) (fun a s' l => (a = 0 ∧ s' = s ∧ l = [] ∧
      ∀ b, b < sb.size → s.marked sb b = true) ∨ Allocated sb s s' a) s := by
  obtain ⟨a, s', l, hrun, hspec⟩ := balloc_spec hm
  refine ⟨a, s', l, hrun, ?_⟩
  rcases hspec with ⟨rfl, hs, hl⟩ | ⟨ha, -⟩
  · refine .inl ⟨rfl, hs, hl, ?_⟩
    intro b hb
    have hdvd : ∀ x ∈ (List.range ((sb.size + bpb - 1) / bpb)).map fun k => k * bpb, bpb ∣ x := by
      intro x hx
      obtain ⟨k, -, rfl⟩ := mem_map.mp hx
      exact Nat.dvd_mul_left ..
    have hmem : b / bpb * bpb ∈ (List.range ((sb.size + bpb - 1) / bpb)).map fun k => k * bpb := by
      refine mem_map.mpr ⟨b / bpb, mem_range.mpr ?_, rfl⟩
      unfold bpb bsize
      omega
    have := ballocFrom_full hm _ hdvd hrun _ hmem (b % bpb) (Nat.mod_lt _ (by decide))
    rw [Nat.div_add_mod'] at this
    exact this hb
  · exact .inr ha

/-- **`bfree`** of a marked data block returns. -/
theorem bfree_spec (hm : MetaMarked sb s) (hd : a ∈ dataBlocks sb) (hu : a ∈ s.used sb) :
    Returns (bfree sb a) (fun _ s' l => Freed sb s s' a ∧ changes l = [.give a]) s := by
  obtain ⟨hge, hlt⟩ := hd
  obtain ⟨-, hmark⟩ := hu
  have hbb := sb.bblock_lt hlt
  have hbm := sb.bmapstart_le a.toNat
  unfold bfree
  apply Returns.seq_get
  dsimp only
  rw [if_neg (by rw [Bool.not_eq_false]; exact hmark)]
  refine ⟨_, _, _, rfl, ⟨rfl, setBlock_ino hbm, ?_, ?_, ?_⟩, rfl⟩
  · ext c
    simp only [used, Set.mem_ofPred_eq, Set.mem_sdiff, Set.mem_singleton_iff]
    rw [marked_clearBit, Bool.and_eq_true, Bool.not_eq_true', decide_eq_false_iff_not]
    constructor
    · rintro ⟨hc, hne, hmark⟩
      exact ⟨⟨hc, hmark⟩, fun he => hne (by rw [he])⟩
    · rintro ⟨⟨hc, hmark⟩, hne⟩
      exact ⟨hc, fun he => hne (UInt32.toNat_inj.mp he), hmark⟩
  · intro b hb
    rw [marked_clearBit, hm b hb, Bool.and_true]
    simp
    omega
  · intro x hx
    exact setBlock_block_of_ne (by omega)

/-! ## `bmap` on one entry

The number is there, or `balloc` is asked for one, which is stored unless the disk is full. What this comes to
depends on what is known of `balloc`. -/

variable {Q : UInt32 → Files → List FilesEvent → Prop} {j : Nat}

/-- **An entry of `addrs`.** -/
theorem bmapSlot_of_balloc (k : InodeId) (i : Fin (ndirect + 1)) (hQ : Returns (balloc sb) Q s) :
    Returns (bmapSlot sb k i) (fun a s' l =>
      (a = (s.inode k).addrs i ∧ a ≠ 0 ∧ s' = s ∧ l = []) ∨ ((s.inode k).addrs i = 0 ∧
        ∃ s₁, Q a s₁ l ∧ s' = if a = 0 then s₁ else s₁.setAddr k i a)) s := by
  unfold bmapSlot
  apply Returns.seq_get
  dsimp only
  split
  · next h0 =>
      apply Returns.seq
      apply hQ.mono
      intro a s₁ l hal
      rw [← append_nil l] at hal
      split
      · next ha => exact .ret (.inr ⟨h0, s₁, by rw [← ha]; exact hal, (if_pos rfl).symm⟩)
      · next ha => exact Returns.seq_update (.ret (.inr ⟨h0, s₁, hal, (if_neg ha).symm⟩))
  · next h0 => exact .ret (.inl ⟨rfl, h0, rfl, rfl⟩)

/-- A number stored in an entry of the block `addr`. -/
def setEntry (s : Files) (addr : UInt32) (j : Nat) (a : UInt32) : Files :=
  s.setBlock addr.toNat (Words.setWord (s.block addr.toNat) j a.toNat)

/-- Writing an entry of an indirect block changes this entry only. -/
theorem setEntry_entry {addr : UInt32} (hj : j < nindirect) (b : UInt32) (i : Nat) :
    (s.setEntry addr j a).entry b i = if b = addr ∧ i = j then a else s.entry b i := by
  unfold entry setEntry
  by_cases hb : b = addr
  · subst hb
    rw [setBlock_block_self]
    by_cases hi : i = j
    · subst hi
      rw [if_pos ⟨rfl, rfl⟩, Words.word_setWord_self _ (by unfold nindirect bsize at *; omega) a.toNat_lt,
        UInt32.ofNat_toNat]
    · rw [if_neg fun h => hi h.2, Words.word_setWord_of_ne _ hi]
  · rw [if_neg fun h => hb h.1, setBlock_block_of_ne fun he => hb (UInt32.toNat_inj.mp he)]

/-- **An entry of an indirect block.** -/
theorem bmapEntry_of_balloc (addr : UInt32) (j : Nat) (hQ : Returns (balloc sb) Q s) :
    Returns (bmapEntry sb addr j) (fun a s' l =>
      (a = s.entry addr j ∧ a ≠ 0 ∧ s' = s ∧ l = []) ∨ (s.entry addr j = 0 ∧
        ∃ s₁ l₁, Q a s₁ l₁ ∧ s' = (if a = 0 then s₁ else s₁.setEntry addr j a) ∧
          l = l₁ ++ if a = 0 then [] else [.logWrite addr.toNat])) s := by
  unfold bmapEntry
  apply Returns.seq_get
  dsimp only
  split
  · next h0 =>
      apply Returns.seq
      apply hQ.mono
      intro a s₁ l hal
      split
      · next ha => exact ⟨_, _, _, rfl, .inr ⟨h0, s₁, l, hal, (if_neg ha).symm, by rw [if_neg ha]; rfl⟩⟩
      · next ha =>
          exact .ret (.inr ⟨h0, s₁, l, hal, (if_pos (not_not.mp ha)).symm, by rw [if_pos (not_not.mp ha)]⟩)
  · next h0 => exact .ret (.inl ⟨rfl, h0, rfl, rfl⟩)

end Files

end Xv6
