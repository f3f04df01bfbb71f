import Mathlib.Data.List.TakeWhile
import Xv6.Fs.FileOps

/-!
# A file is an array of bytes

The contents of an inode, seen through `readi` and `writei`. The block map of the inode leads from a
block of the file to a block of the disk, directly or through the indirect block; blocks that are
missing are handed out by `balloc` on the way, and hold zeros. Whatever the map looks like, the file is
an array: `readi` returns its bytes and `writei` replaces some of them, as far as the disk has room and
the user memory they come from can be read.

For this the inode has to be sound (`FileOk`): its blocks are data blocks, marked in the bitmap, and
different from each other, and no block below its size is missing.
-/

namespace Xv6

open TraceM Ownership Function Files List Transition

/-! ## The block map of an inode -/

namespace Files

variable (s : Files) (k : InodeId)

/-- The number of a block of the file: what `bmap` finds without `balloc`. -/
def fileBlock (bn : Nat) : UInt32 :=
  if h : bn < ndirect then (s.inode k).addrs ⟨bn, Nat.lt_succ_of_lt h⟩
  else if bn < maxfile ∧ (s.inode k).addrs (Fin.last ndirect) ≠ 0 then
    s.entry ((s.inode k).addrs (Fin.last ndirect)) (bn - ndirect)
  else 0

/-- All block numbers of the inode: `none` is the place of the indirect block. -/
def fileNum : Option (Fin maxfile) → UInt32
  | none => (s.inode k).addrs (Fin.last ndirect)
  | some bn => s.fileBlock k bn

/-- The contents of a block of the file. -/
def fileData (bn : Nat) : Block :=
  if s.fileBlock k bn = 0 then fun _ => 0 else s.block (s.fileBlock k bn).toNat

/-- The byte of the file at an offset. -/
def byteAt (x : Nat) : UInt8 := byteOf (s.fileData k (x / bsize)) (x % bsize)

end Files

/-- The blocks of the inode are different marked data blocks. -/
structure BlocksOk (sb : Superblock) (s : Files) (k : InodeId) : Prop where
  owned : Owned (dataBlocks sb) (s.used sb) (s.fileNum k)
  metaMarked : MetaMarked sb s

variable {sb : Superblock} {s s' s'' : Files} {k : InodeId} {bn : Nat} {a : UInt32}

namespace Files

theorem fileBlock_direct (h : bn < ndirect) :
    s.fileBlock k bn = (s.inode k).addrs ⟨bn, Nat.lt_succ_of_lt h⟩ := dif_pos h

theorem fileBlock_indirect (h : ¬ bn < ndirect) (hbn : bn < maxfile)
    (ha : (s.inode k).addrs (Fin.last ndirect) ≠ 0) :
    s.fileBlock k bn = s.entry ((s.inode k).addrs (Fin.last ndirect)) (bn - ndirect) := by
  unfold fileBlock
  rw [dif_neg h, if_pos ⟨hbn, ha⟩]

theorem fileBlock_missing (h : ¬ bn < ndirect) (ha : (s.inode k).addrs (Fin.last ndirect) = 0) :
    s.fileBlock k bn = 0 := by
  unfold fileBlock
  rw [dif_neg h, if_neg fun hf => hf.2 ha]

theorem fileBlock_of_ge (h : maxfile ≤ bn) : s.fileBlock k bn = 0 := by
  unfold fileBlock
  have hge : ¬ bn < ndirect := by
    unfold maxfile at h
    omega
  rw [dif_neg hge, if_neg fun hf => absurd hf.1 (Nat.not_lt.mpr h)]

theorem lt_maxfile (h : s.fileBlock k bn ≠ 0) : bn < maxfile := by
  by_contra hge
  exact h (fileBlock_of_ge (Nat.not_lt.mp hge))

/-- The block map depends on `addrs` and the indirect block. -/
theorem fileBlock_congr (ha : (s'.inode k).addrs = (s.inode k).addrs)
    (hb : s.fileNum k none ≠ 0 →
      s'.block (s.fileNum k none).toNat = s.block (s.fileNum k none).toNat) :
    s'.fileBlock k bn = s.fileBlock k bn := by
  unfold fileBlock
  rw [ha]
  split
  · rfl
  · split
    · next h =>
        unfold entry
        rw [show s'.block ((s.inode k).addrs (Fin.last ndirect)).toNat = _ from hb h.2]
        rfl
    · rfl

theorem fileNum_congr (ha : (s'.inode k).addrs = (s.inode k).addrs)
    (hb : s.fileNum k none ≠ 0 →
      s'.block (s.fileNum k none).toNat = s.block (s.fileNum k none).toNat) :
    s'.fileNum k = s.fileNum k := by
  funext p
  cases p with
  | none => exact congrFun ha (Fin.last ndirect)
  | some bn => exact fileBlock_congr ha hb

end Files

theorem BlocksOk.dataStart_le (h : BlocksOk sb s k) (hne : s.fileBlock k bn ≠ 0) :
    sb.dataStart ≤ (s.fileBlock k bn).toNat :=
  (h.owned.good (p := some ⟨bn, lt_maxfile hne⟩) hne).1

/-! ## `bmap` -/

/-- **A block was handed out** for the place `p` of the inode. -/
structure Grown (sb : Superblock) (k : InodeId) (s s' : Files) (p : Option (Fin maxfile)) (a : UInt32) :
    Prop where
  missing : s.fileNum k p = 0
  ne_zero : a ≠ 0
  inode : s'.inode k = { s.inode k with addrs := (s'.inode k).addrs }
  num : s'.fileNum k = update (s.fileNum k) p a
  ok : BlocksOk sb s' k
  block : ∀ bn, s.fileNum k (some bn) ≠ 0 →
    s'.block (s.fileNum k (some bn)).toNat = s.block (s.fileNum k (some bn)).toNat
  zero : s'.block a.toNat = fun _ => 0

/-- The contents of the file are the same: a block that was missing held zeros before. -/
theorem Grown.fileData {p : Option (Fin maxfile)} (h : Grown sb k s s' p a) (bn : Nat) :
    s'.fileData k bn = s.fileData k bn := by
  unfold Files.fileData
  by_cases hbn : bn < maxfile
  · have hnum : s'.fileBlock k bn = update (s.fileNum k) p a (some ⟨bn, hbn⟩) :=
      congrFun h.num (some ⟨bn, hbn⟩)
    have hold : s.fileBlock k bn = s.fileNum k (some ⟨bn, hbn⟩) := rfl
    rw [hnum, hold]
    by_cases hp : some ⟨bn, hbn⟩ = p
    · subst hp
      rw [update_self, if_neg h.ne_zero, if_pos h.missing]
      exact h.zero
    · rw [update_of_ne hp]
      split
      · rfl
      · next hne => exact h.block _ hne
  · rw [fileBlock_of_ge (Nat.not_lt.mp hbn), fileBlock_of_ge (Nat.not_lt.mp hbn)]
    rfl

/-- The blocks that the file had stay. -/
theorem Grown.fileBlock {p : Option (Fin maxfile)} (h : Grown sb k s s' p a)
    (hne : s.fileBlock k bn ≠ 0) : s'.fileBlock k bn = s.fileBlock k bn := by
  have hbn := lt_maxfile hne
  have hnum : s'.fileBlock k bn = update (s.fileNum k) p a (some ⟨bn, hbn⟩) :=
    congrFun h.num (some ⟨bn, hbn⟩)
  have hp : some ⟨bn, hbn⟩ ≠ p := by
    rintro rfl
    exact hne h.missing
  rw [hnum, update_of_ne hp]
  rfl

/-- After `balloc` the block is in no place of the inode yet. -/
theorem Files.Allocated.blocksOk (ha : Files.Allocated sb s s' a) (h : BlocksOk sb s k) :
    s'.fileNum k = s.fileNum k ∧ Owned (dataBlocks sb) (s'.used sb) (s.fileNum k) ∧
      a ∈ s'.used sb ∧ a ∉ held (s.fileNum k) ∧
      ∀ p, s.fileNum k p ≠ 0 → s'.block (s.fileNum k p).toNat = s.block (s.fileNum k p).toNat := by
  have hfresh := h.owned.notMem_held ha.fresh
  have hblock : ∀ p, s.fileNum k p ≠ 0 →
      s'.block (s.fileNum k p).toNat = s.block (s.fileNum k p).toNat := by
    intro p hp
    apply ha.block _ (h.owned.good hp).1
    intro he
    exact hfresh (UInt32.toNat_inj.mp he ▸ mem_held hp)
  refine ⟨fileNum_congr (by rw [ha.inode]) (hblock none), ?_, ?_, hfresh, hblock⟩
  · rw [ha.used]
    exact h.owned.mark a
  · rw [ha.used]
    exact Set.mem_insert ..

/-- A block from `balloc` holds zeros. -/
theorem Files.Allocated.zeroed (ha : Files.Allocated sb s s' a) : s'.block a.toNat = fun _ => 0 := by
  apply Words.eq_zero_of_words
  intro j
  have hj := congrArg UInt32.toNat (ha.zero j)
  unfold Files.entry at hj
  rw [UInt32.toNat_ofNat', Nat.mod_eq_of_lt (Words.word_lt _ _)] at hj
  exact hj

/-- The place of an entry of `addrs`. -/
def slotPlace (i : Fin (ndirect + 1)) : Option (Fin maxfile) :=
  if h : i.val < ndirect then some ⟨i, Nat.lt_add_right _ h⟩ else none

theorem fileNum_slotPlace (i : Fin (ndirect + 1)) : s.fileNum k (slotPlace i) = (s.inode k).addrs i := by
  unfold slotPlace
  split
  · next h => exact fileBlock_direct h
  · next h =>
      have hi : i = Fin.last ndirect := Fin.ext (by have := i.isLt; simp only [Fin.val_last]; omega)
      rw [hi]
      rfl

/-- A number in an entry of `addrs` that was zero. -/
theorem fileNum_setAddr {i : Fin (ndirect + 1)} (h0 : (s.inode k).addrs i = 0)
    (hzero : ∀ j, s.entry a j = 0) :
    (s.setAddr k i a).fileNum k = update (s.fileNum k) (slotPlace i) a := by
  have hself : ((s.setAddr k i a).inode k).addrs = update (s.inode k).addrs i a := by
    unfold Files.setAddr Files.setInode
    dsimp only
    rw [update_self]
  funext p
  cases p with
  | none =>
    show ((s.setAddr k i a).inode k).addrs (Fin.last ndirect) = _
    rw [hself]
    by_cases hi : i = Fin.last ndirect
    · subst hi
      have hp : slotPlace (Fin.last ndirect) = none := dif_neg (lt_irrefl _)
      rw [update_self, hp, update_self]
    · rw [update_of_ne (Ne.symm hi)]
      have hlt : i.val < ndirect := Fin.val_lt_last hi
      have hne : none ≠ slotPlace i := by
        unfold slotPlace
        rw [dif_pos hlt]
        exact Option.some_ne_none _ ∘ Eq.symm
      rw [update_of_ne hne]
      rfl
  | some bn =>
    show (s.setAddr k i a).fileBlock k bn = _
    by_cases hd : bn.val < ndirect
    · rw [fileBlock_direct hd, hself]
      by_cases hi : i = ⟨bn.val, Nat.lt_succ_of_lt hd⟩
      · subst hi
        rw [update_self]
        have hp : some bn = slotPlace ⟨bn.val, Nat.lt_succ_of_lt hd⟩ := by
          unfold slotPlace
          rw [dif_pos hd]
        rw [hp, update_self]
      · rw [update_of_ne (Ne.symm hi)]
        have hne : some bn ≠ slotPlace i := by
          intro he
          unfold slotPlace at he
          split at he
          · cases he
            exact hi rfl
          · cases he
        rw [update_of_ne hne]
        exact (fileBlock_direct hd).symm
    · have hne : some bn ≠ slotPlace i := by
        intro he
        unfold slotPlace at he
        split at he
        · next hlt =>
            cases he
            exact hd hlt
        · cases he
      rw [update_of_ne hne]
      show _ = s.fileBlock k bn
      by_cases hi : i = Fin.last ndirect
      · -- a new indirect block has no entries
        subst hi
        have hlast : ((s.setAddr k (Fin.last ndirect) a).inode k).addrs (Fin.last ndirect) = a := by
          rw [hself, update_self]
        rw [fileBlock_missing hd h0]
        by_cases ha : a = 0
        · exact fileBlock_missing hd (hlast.trans ha)
        · rw [fileBlock_indirect hd bn.isLt (by rw [hlast]; exact ha), hlast]
          exact hzero _
      · have hlast : ((s.setAddr k i a).inode k).addrs (Fin.last ndirect) =
            (s.inode k).addrs (Fin.last ndirect) := by
          rw [hself, update_of_ne (Ne.symm hi)]
        by_cases ha : (s.inode k).addrs (Fin.last ndirect) = 0
        · rw [fileBlock_missing hd ha, fileBlock_missing hd (hlast.trans ha)]
        · rw [fileBlock_indirect hd bn.isLt ha,
            fileBlock_indirect hd bn.isLt (by rw [hlast]; exact ha), hlast]
          rfl

/-- What `bmap` and its parts do for a place: the number is there, or the disk is full, or a block is
handed out. -/
def Looked (sb : Superblock) (k : InodeId) (s : Files) (p : Option (Fin maxfile)) (a : UInt32)
    (s' : Files) : Prop :=
  (s' = s ∧ s.fileNum k p = a ∧ (a = 0 → ∀ b, b < sb.size → s.marked sb b = true)) ∨
    Grown sb k s s' p a

/-- `bmap` for an address in the inode. -/
theorem bmapSlot_file (h : BlocksOk sb s k) (i : Fin (ndirect + 1)) :
    Returns (bmapSlot sb k i) (fun a s' _ => Looked sb k s (slotPlace i) a s') s := by
  apply (bmapSlot_of_balloc k i (balloc_full h.metaMarked)).mono
  rintro a s' l (⟨rfl, hne, rfl, rfl⟩ | ⟨h0, s₁, ⟨rfl, rfl, -, hfull⟩ | ha, rfl⟩)
  · exact .inl ⟨rfl, fileNum_slotPlace i, fun hz => absurd hz hne⟩
  · exact .inl ⟨rfl, (fileNum_slotPlace i).trans h0, fun _ => hfull⟩
  · rw [if_neg ha.ne_zero]
    obtain ⟨hnum, howned, hused, hfresh, hblock⟩ := ha.blocksOk h
    have h0₁ : (s₁.inode k).addrs i = 0 := by
      rw [ha.inode]
      exact h0
    have hset := fileNum_setAddr h0₁ ha.zero
    rw [hnum] at hset
    refine .inr ⟨(fileNum_slotPlace i).trans h0, ha.ne_zero, ?_, hset, ⟨?_, ?_⟩, ?_, ha.zeroed⟩
    · rw [setAddr_inode_self, ha.inode]
    · rw [hset]
      exact howned.store ha.data hused hfresh
    · exact ha.metaMarked
    · exact fun bn hne => hblock _ hne

/-- `bmap` for an address in the indirect block. -/
theorem bmapEntry_file (h : BlocksOk sb s k) {addr : UInt32}
    (ha : (s.inode k).addrs (Fin.last ndirect) = addr) (hne : addr ≠ 0) (hd : ¬ bn < ndirect)
    (hbn : bn < maxfile) :
    Returns (bmapEntry sb addr (bn - ndirect)) (fun a s' _ => Looked sb k s (some ⟨bn, hbn⟩) a s') s := by
  subst ha
  have hentry : s.fileNum k (some ⟨bn, hbn⟩) =
      s.entry ((s.inode k).addrs (Fin.last ndirect)) (bn - ndirect) :=
    fileBlock_indirect hd hbn hne
  apply (bmapEntry_of_balloc _ (bn - ndirect) (balloc_full h.metaMarked)).mono
  rintro a s' l (⟨rfl, hne, rfl, rfl⟩ | ⟨h0, s₁, l₁, ⟨rfl, rfl, -, hfull⟩ | hal, rfl, -⟩)
  · exact .inl ⟨rfl, hentry, fun hz => absurd hz hne⟩
  · exact .inl ⟨rfl, hentry.trans h0, fun _ => hfull⟩
  · rw [if_neg hal.ne_zero]
    obtain ⟨hnum, howned, hused, hfresh, hblock⟩ := hal.blocksOk h
    generalize hA : (s.inode k).addrs (Fin.last ndirect) = addr at *
    have hind : s.fileNum k none = addr := hA
    have hge : sb.dataStart ≤ addr.toNat := by
      rw [← hind]
      exact (h.owned.good (by rw [hind]; exact hne)).1
    have hlast₁ : (s₁.inode k).addrs (Fin.last ndirect) = addr := by
      rw [hal.inode]
      exact hA
    have hlast : ((s₁.setEntry addr (bn - ndirect) a).inode k).addrs (Fin.last ndirect) = addr := hlast₁
    have hset : (s₁.setEntry addr (bn - ndirect) a).fileNum k =
        update (s.fileNum k) (some ⟨bn, hbn⟩) a := by
      rw [← hnum]
      funext p
      cases p with
      | none =>
        rw [update_of_ne (Option.some_ne_none _).symm]
        rfl
      | some b =>
        show (s₁.setEntry addr (bn - ndirect) a).fileBlock k b = _
        by_cases hdb : b.val < ndirect
        · have hbb : some b ≠ some ⟨bn, hbn⟩ := by
            rintro ⟨⟩
            exact hd hdb
          rw [update_of_ne hbb, fileBlock_direct hdb]
          exact (fileBlock_direct (s := s₁) hdb).symm
        · rw [fileBlock_indirect hdb b.isLt (by rw [hlast]; exact hne), hlast,
            setEntry_entry (by unfold maxfile at hbn; omega)]
          by_cases hbb : b = ⟨bn, hbn⟩
          · subst hbb
            rw [if_pos ⟨rfl, rfl⟩, update_self]
          · have hne' : ¬ (addr = addr ∧ b.val - ndirect = bn - ndirect) := by
              intro he
              exact hbb (Fin.ext (by show b.val = bn; omega))
            rw [if_neg hne', update_of_ne fun he => hbb (Option.some.inj he), ← hlast₁]
            exact (fileBlock_indirect hdb b.isLt (by rw [hlast₁]; exact hne)).symm
    have hother : ∀ x, x ≠ addr.toNat → (s₁.setEntry addr (bn - ndirect) a).block x = s₁.block x :=
      fun x hx => setBlock_block_of_ne hx
    refine .inr ⟨hentry.trans h0, hal.ne_zero, ?_, hset, ⟨?_, ?_⟩, ?_, ?_⟩
    · rw [show (s₁.setEntry addr (bn - ndirect) a).inode = s.inode from hal.inode]
    · rw [hset]
      unfold Files.setEntry
      rw [setBlock_used (.inr hge)]
      exact howned.store hal.data hused hfresh
    · exact metaMarked_setBlock hal.metaMarked (.inr hge)
    · intro b hb
      rw [hother _ ?_, hblock _ hb]
      intro he
      have := h.owned.unique hb ((UInt32.toNat_inj.mp he).trans hind.symm)
      cases this
    · rw [hother _ ?_, hal.zeroed]
      intro he
      exact hfresh (UInt32.toNat_inj.mp he ▸ hind ▸ mem_held (by rw [hind]; exact hne))

/-- **What `bmap` does** for a block of the file: nothing that can be seen in the contents. -/
structure Mapped (sb : Superblock) (k : InodeId) (s s' : Files) : Prop where
  inode : s'.inode k = { s.inode k with addrs := (s'.inode k).addrs }
  ok : BlocksOk sb s' k
  data : ∀ bn, s'.fileData k bn = s.fileData k bn
  kept : ∀ bn, s.fileBlock k bn ≠ 0 → s'.fileBlock k bn = s.fileBlock k bn

theorem Mapped.trans (h : Mapped sb k s s') (h' : Mapped sb k s' s'') : Mapped sb k s s'' where
  inode := by
    rw [h'.inode, h.inode]
  ok := h'.ok
  data bn := (h'.data bn).trans (h.data bn)
  kept bn hne := by
    rw [h'.kept bn (by rw [h.kept bn hne]; exact hne), h.kept bn hne]

theorem Looked.mapped {p : Option (Fin maxfile)} (h : BlocksOk sb s k) (hl : Looked sb k s p a s') :
    Mapped sb k s s' ∧ s'.fileNum k p = a ∧ (a = 0 → ∀ b, b < sb.size → s'.marked sb b = true) := by
  rcases hl with ⟨rfl, ha, hfull⟩ | hg
  · exact ⟨⟨rfl, h, fun _ => rfl, fun _ _ => rfl⟩, ha, hfull⟩
  · refine ⟨⟨hg.inode, hg.ok, hg.fileData, fun _ hne => hg.fileBlock hne⟩, ?_, ?_⟩
    · rw [hg.num, update_self]
    · exact fun hz => absurd hz hg.ne_zero

/-- **`bmap`** finds the block, or hands one out, or the disk is full. -/
theorem bmap_file (h : BlocksOk sb s k) (hbn : bn < maxfile) :
    Returns (bmap sb k bn) (fun a s' _ => Mapped sb k s s' ∧ (a ≠ 0 → s'.fileBlock k bn = a) ∧
      (a = 0 → ∀ b, b < sb.size → s'.marked sb b = true)) s := by
  unfold bmap
  by_cases hd : bn < ndirect
  · rw [dif_pos hd]
    apply (bmapSlot_file h _).mono
    intro a s' _ hl
    obtain ⟨hm, hnum, hfull⟩ := hl.mapped h
    refine ⟨hm, fun _ => ?_, hfull⟩
    rw [fileNum_slotPlace] at hnum
    rw [fileBlock_direct hd]
    exact hnum
  · have hj : bn - ndirect < nindirect := by
      unfold maxfile at hbn
      omega
    rw [dif_neg hd, if_pos hj]
    apply Returns.seq
    apply (bmapSlot_file h _).mono
    intro addr s₁ _ hl
    obtain ⟨hm, hnum, hfull⟩ := hl.mapped h
    by_cases h0 : addr = 0
    · rw [if_pos h0]
      exact .ret ⟨hm, fun hne => absurd rfl hne, fun _ => hfull h0⟩
    · rw [if_neg h0]
      rw [fileNum_slotPlace] at hnum
      apply (bmapEntry_file hm.ok hnum h0 hd hbn).mono
      intro a s₂ _ hl₂
      obtain ⟨hm₂, hnum₂, hfull₂⟩ := hl₂.mapped hm.ok
      exact ⟨hm.trans hm₂, fun _ => hnum₂, hfull₂⟩

/-- A block that is there is found without a change. -/
theorem bmap_run (hne : s.fileBlock k bn ≠ 0) : bmap sb k bn s = .ok (s.fileBlock k bn, s, []) := by
  have hbn := lt_maxfile hne
  unfold bmap
  by_cases hd : bn < ndirect
  · rw [fileBlock_direct hd] at hne ⊢
    rw [dif_pos hd]
    unfold bmapSlot
    rw [get_bind_apply, if_neg hne]
    rfl
  · have hj : bn - ndirect < nindirect := by
      unfold maxfile at hbn
      omega
    have ha : (s.inode k).addrs (Fin.last ndirect) ≠ 0 :=
      fun h0 => hne (fileBlock_missing hd h0)
    rw [fileBlock_indirect hd hbn ha] at hne ⊢
    have hslot : bmapSlot sb k (Fin.last ndirect) s =
        .ok ((s.inode k).addrs (Fin.last ndirect), s, []) := by
      unfold bmapSlot
      rw [get_bind_apply, if_neg ha]
      rfl
    rw [dif_neg hd, if_pos hj, bind_of_ok hslot, if_neg ha]
    unfold bmapEntry
    rw [get_bind_apply, if_neg (show ¬ UInt32.ofNat _ = 0 from hne)]
    rfl

/-! ## Writing -/

/-- **Bytes were stored**: those from `lo` to `hi` have the values `val`, the others are the same. -/
structure Stored (sb : Superblock) (k : InodeId) (s s' : Files) (lo hi : Nat) (val : Nat → UInt8) :
    Prop where
  inode : s'.inode k = { s.inode k with addrs := (s'.inode k).addrs }
  ok : BlocksOk sb s' k
  byte : ∀ x, s'.byteAt k x = if lo ≤ x ∧ x < hi then val x else s.byteAt k x
  kept : ∀ bn, s.fileBlock k bn ≠ 0 → s'.fileBlock k bn = s.fileBlock k bn
  there : ∀ x, lo ≤ x → x < hi → s'.fileBlock k (x / bsize) ≠ 0

variable {lo mid hi : Nat} {val : Nat → UInt8}

theorem Mapped.stored (h : Mapped sb k s s') (lo : Nat) (val : Nat → UInt8) :
    Stored sb k s s' lo lo val where
  inode := h.inode
  ok := h.ok
  byte x := by
    rw [if_neg (by omega)]
    unfold Files.byteAt
    rw [h.data]
  kept := h.kept
  there x hx hx' := absurd hx' (by omega)

/-- Bytes stored one piece after the other. -/
theorem Stored.trans (h : Stored sb k s s' lo mid val) (h' : Stored sb k s' s'' mid hi val)
    (hlo : lo ≤ mid) (hhi : mid ≤ hi) : Stored sb k s s'' lo hi val where
  inode := by
    rw [h'.inode, h.inode]
  ok := h'.ok
  byte x := by
    rw [h'.byte, h.byte]
    by_cases hx : mid ≤ x
    · by_cases hx' : x < hi
      · rw [if_pos ⟨hx, hx'⟩, if_pos ⟨by omega, hx'⟩]
      · rw [if_neg (by omega), if_neg (by omega), if_neg (by omega)]
    · rw [if_neg (by omega)]
      by_cases hx' : lo ≤ x
      · rw [if_pos (by omega), if_pos (by omega)]
      · rw [if_neg (by omega), if_neg (by omega)]
  kept bn hne := by
    rw [h'.kept bn (by rw [h.kept bn hne]; exact hne), h.kept bn hne]
  there x hx hx' := by
    by_cases hm : mid ≤ x
    · exact h'.there x hm hx'
    · have hne := h.there x hx (by omega)
      rw [h'.kept _ hne]
      exact hne

theorem byteOf_of_lt (data : Block) {j : Nat} (h : j < bsize) : byteOf data j = data ⟨j, h⟩ := dif_pos h

/-- New contents of a block of the file. -/
theorem BlocksOk.setData (h : BlocksOk sb s k) (hne : s.fileBlock k bn ≠ 0) (data : Block) :
    BlocksOk sb (s.setBlock (s.fileBlock k bn).toNat data) k ∧
      (∀ b, (s.setBlock (s.fileBlock k bn).toNat data).fileBlock k b = s.fileBlock k b) ∧
      ∀ b, (s.setBlock (s.fileBlock k bn).toNat data).fileData k b =
        if b = bn then data else s.fileData k b := by
  have hge := h.dataStart_le hne
  have hind : s.fileNum k none ≠ 0 → (s.setBlock (s.fileBlock k bn).toNat data).block
      (s.fileNum k none).toNat = s.block (s.fileNum k none).toNat := by
    intro h0
    apply setBlock_block_of_ne
    intro he
    have := h.owned.unique (q := some ⟨bn, lt_maxfile hne⟩) h0 (UInt32.toNat_inj.mp he)
    cases this
  have hblock : ∀ b, (s.setBlock (s.fileBlock k bn).toNat data).fileBlock k b = s.fileBlock k b :=
    fun b => fileBlock_congr rfl hind
  have hnum : (s.setBlock (s.fileBlock k bn).toNat data).fileNum k = s.fileNum k :=
    fileNum_congr rfl hind
  refine ⟨⟨?_, metaMarked_setBlock h.metaMarked (.inr hge)⟩, hblock, ?_⟩
  · rw [hnum, setBlock_used (.inr hge)]
    exact h.owned
  · intro b
    unfold Files.fileData
    rw [hblock]
    by_cases hb : b = bn
    · subst hb
      rw [if_neg hne, if_pos rfl, setBlock_block_self]
    · rw [if_neg hb]
      split
      · rfl
      · next hb0 =>
          apply setBlock_block_of_ne
          intro he
          have := h.owned.unique (p := some ⟨b, lt_maxfile hb0⟩)
            (q := some ⟨bn, lt_maxfile hne⟩) hb0 (UInt32.toNat_inj.mp he)
          cases this
          exact hb rfl

theorem copied_some (src : Nat → UInt8) (t m : Nat) : copied (fun i => some (src i)) t m = m := by
  unfold copied
  have hall : (List.range m).takeWhile (fun i => (some (src (t + i))).isSome) = List.range m :=
    takeWhile_eq_self_iff.mpr fun _ _ => rfl
  rw [hall, length_range]

/-- A copy stops at the first byte that is not mapped. -/
theorem copied_spec (src : Nat → Option UInt8) (t m : Nat) :
    copied src t m ≤ m ∧ (∀ i, i < copied src t m → (src (t + i)).isSome) ∧
      (copied src t m < m → src (t + copied src t m) = none) := by
  induction m with
  | zero => exact ⟨le_rfl, fun i hi => absurd hi (Nat.not_lt_zero i), fun h => absurd h (Nat.not_lt_zero _)⟩
  | succ m ih =>
    obtain ⟨hle, hsome, hnone⟩ := ih
    have hsucc : copied src t (m + 1) =
        if copied src t m = m then if (src (t + m)).isSome then m + 1 else m else copied src t m := by
      unfold copied
      rw [List.range_succ, List.takeWhile_append, List.length_range]
      split
      · next hall =>
          rw [List.length_append, List.length_range]
          by_cases hm : (src (t + m)).isSome
          · simp [hm]
          · simp [hm]
      · rfl
    by_cases hall : copied src t m = m
    · rw [hsucc, if_pos hall]
      rw [hall] at hsome
      by_cases hm : (src (t + m)).isSome
      · rw [if_pos hm]
        refine ⟨le_rfl, fun i hi => ?_, fun h => absurd h (lt_irrefl _)⟩
        rcases Nat.lt_succ_iff_lt_or_eq.mp hi with hlt | rfl
        · exact hsome i hlt
        · exact hm
      · rw [if_neg hm]
        exact ⟨Nat.le_succ m, hsome, fun _ => by simpa using hm⟩
    · rw [hsucc, if_neg hall]
      exact ⟨by omega, hsome, fun _ => hnone (by omega)⟩

/-- The bytes of the buffer, where they are mapped. -/
def bufferByte (src : Nat → Option UInt8) (i : Nat) : UInt8 := (src i).getD 0

/-- A failed copy is a copy of the bytes before the failure. -/
theorem copyIn_copied (data : Block) (o t m : Nat) :
    copyIn data o src t m = copyIn data o (fun i => some (bufferByte src i)) t (copied src t m) := by
  funext j
  unfold copyIn
  rw [copied_some]
  by_cases hj : o ≤ j.val ∧ j.val < o + copied src t m
  · rw [if_pos hj, if_pos hj, Option.getD_some]
    have hsome := (copied_spec src t m).2.1 (j - o) (by omega)
    obtain ⟨v, hv⟩ := Option.isSome_iff_exists.mp hsome
    unfold bufferByte
    rw [hv]
    rfl
  · rw [if_neg hj, if_neg hj]

/-- Bytes that fall into one block. -/
theorem div_bsize_add {x c : Nat} (h : x % bsize + c < bsize) : (x + c) / bsize = x / bsize := by
  have hdiv := Nat.div_add_mod x bsize
  refine Nat.div_eq_of_lt_le ?_ ?_
  · rw [Nat.mul_comm]
    omega
  · rw [Nat.mul_comm, Nat.mul_succ]
    omega

/-- **A turn of the loop of `writei`** stores the bytes that fall into one block. -/
theorem Stored.chunk (h : BlocksOk sb s k) (src : Nat → UInt8) {off₀ tot m : Nat}
    (hne : s.fileBlock k ((off₀ + tot) / bsize) ≠ 0)
    (hm : m ≤ bsize - (off₀ + tot) % bsize) :
    Stored sb k s (s.setBlock (s.fileBlock k ((off₀ + tot) / bsize)).toNat
      (copyIn (s.block (s.fileBlock k ((off₀ + tot) / bsize)).toNat) ((off₀ + tot) % bsize)
        (fun i => some (src i)) tot m)) (off₀ + tot) (off₀ + tot + m) fun x => src (x - off₀) := by
  obtain ⟨hok, hblock, hdata⟩ := h.setData hne (copyIn (s.block (s.fileBlock k
    ((off₀ + tot) / bsize)).toNat) ((off₀ + tot) % bsize) (fun i => some (src i)) tot m)
  have hmod : (off₀ + tot) % bsize < bsize := Nat.mod_lt _ (by decide)
  have hsame : ∀ x, off₀ + tot ≤ x → x < off₀ + tot + m → x / bsize = (off₀ + tot) / bsize := by
    intro x hlo hhi
    obtain ⟨c, rfl⟩ := Nat.exists_eq_add_of_le hlo
    exact div_bsize_add (by omega)
  refine ⟨rfl, hok, ?_, fun bn _ => hblock bn, ?_⟩
  · intro x
    unfold Files.byteAt
    rw [hdata]
    have hx : x % bsize < bsize := Nat.mod_lt _ (by decide)
    by_cases hb : x / bsize = (off₀ + tot) / bsize
    · have hold : s.fileData k (x / bsize) = s.block (s.fileBlock k ((off₀ + tot) / bsize)).toNat := by
        rw [hb]
        exact if_neg hne
      have hdiv := Nat.div_add_mod x bsize
      have hdiv' := Nat.div_add_mod (off₀ + tot) bsize
      rw [if_pos hb, hold, byteOf_of_lt _ hx, byteOf_of_lt _ hx]
      unfold copyIn
      dsimp only
      rw [copied_some]
      rw [hb] at hdiv
      generalize bsize * ((off₀ + tot) / bsize) = base at hdiv hdiv'
      by_cases hin : off₀ + tot ≤ x ∧ x < off₀ + tot + m
      · rw [if_pos (by omega), if_pos hin, Option.getD_some]
        congr 1
        omega
      · rw [if_neg (by omega), if_neg hin]
    · rw [if_neg hb, if_neg]
      rintro ⟨hlo, hhi⟩
      exact hb (hsame x hlo hhi)
  · intro x hlo hhi
    rw [hblock, hsame x hlo hhi]
    exact hne

/-- Every block is marked. -/
def DiskFull (sb : Superblock) (s : Files) : Prop := ∀ b, b < sb.size → s.marked sb b = true

/-- How the loop of `writei` ends: it reports `tot` bytes and has stored `e`; either these are the same,
or the copy failed at byte `e` of the buffer, in the block in which byte `tot` goes. Short of `n` it
stops at the start of a block, and unless the buffer ends there, at one that the file does not have. -/
structure Ended (s : Files) (k : InodeId) (src : Nat → Option UInt8) (off n tot e : Nat) : Prop where
  le : tot ≤ e
  fits : e ≤ n
  mapped : ∀ i, i < e → (src i).isSome
  spill : tot < e → e < n ∧ src e = none ∧ (off + tot) / bsize = (off + e) / bsize
  start : tot < n → tot = 0 ∨ (off + tot) % bsize = 0
  why : tot < n → e = tot → src tot = none ∨ s.fileBlock k ((off + tot) / bsize) = 0

/-- **The loop of `writei`**, from user memory. -/
theorem writeLoop_user (src : Nat → Option UInt8) {off₀ n : Nat} (hmax : off₀ + n ≤ maxfile * bsize) :
    ∀ (d tot : Nat) {s : Files}, n - tot = d → tot ≤ n → BlocksOk sb s k →
    (∀ i, i < tot → (src i).isSome) → (tot < n → tot = 0 ∨ (off₀ + tot) % bsize = 0) →
    Returns (writeLoop sb k src n tot (off₀ + tot)) (fun r s' _ => r.2 = off₀ + r.1 ∧ tot ≤ r.1 ∧
      r.1 ≤ n ∧ ∃ e, Ended s k src off₀ n r.1 e ∧
        Stored sb k s s' (off₀ + tot) (off₀ + e) (fun x => bufferByte src (x - off₀)) ∧
        (r.1 < n → src e = none ∨ DiskFull sb s')) s := by
  intro d
  induction d using Nat.strongRecOn with
  | _ d ih =>
    intro tot s hd htot h hsome hstart
    rw [writeLoop]
    by_cases hlt : tot < n
    · rw [dif_pos hlt]
      have hbn : (off₀ + tot) / bsize < maxfile := (Nat.div_lt_iff_lt_mul (by decide)).mpr (by omega)
      obtain ⟨a, s₁, l₁, hrun, hmapped, hhere, hfull⟩ := bmap_file h hbn
      have hmissing : a = 0 → s.fileBlock k ((off₀ + tot) / bsize) = 0 := by
        intro ha
        by_contra hne
        rw [bmap_run hne] at hrun
        cases hrun
        exact hne ha
      refine Returns.seq (.of_ok hrun ?_)
      by_cases h0 : a = 0
      · rw [if_pos h0]
        refine .ret ⟨rfl, le_rfl, htot, tot, ⟨le_rfl, htot, hsome, ?_, hstart, ?_⟩, hmapped.stored _ _,
          fun _ => .inr (hfull h0)⟩
        · exact fun hf => absurd hf (lt_irrefl _)
        · exact fun _ _ => .inr (hmissing h0)
      · rw [if_neg h0]
        have hblock := hhere h0
        apply Returns.seq_get
        dsimp only
        have hmod : (off₀ + tot) % bsize < bsize := Nat.mod_lt _ (by decide)
        rw [copyIn_copied]
        generalize hm : min (n - tot) (bsize - (off₀ + tot) % bsize) = m
        obtain ⟨hcm, hcsome, hcnone⟩ := copied_spec src tot m
        generalize copied src tot m = c at hcm hcsome hcnone
        have hchunk := Stored.chunk (m := c) hmapped.ok (bufferByte src) (by rw [hblock]; exact h0)
          (by omega)
        rw [hblock] at hchunk
        have hstored := (hmapped.stored (off₀ + tot) fun x => bufferByte src (x - off₀)).trans hchunk
          le_rfl (by omega)
        have hsome' : ∀ i, i < tot + c → (src i).isSome := by
          intro i hi
          by_cases hit : i < tot
          · exact hsome i hit
          · have := hcsome (i - tot) (by omega)
            rwa [Nat.add_sub_cancel' (by omega)] at this
        by_cases hc : c = m
        · subst hc
          rw [if_neg fun hf => hf rfl]
          apply Returns.seq
          refine .of_ok (logBlock_run _ _ s₁) ?_
          have hnext : tot + c < n → tot + c = 0 ∨ (off₀ + (tot + c)) % bsize = 0 := by
            intro hlt'
            right
            have hdiv := Nat.div_add_mod (off₀ + tot) bsize
            have hfull : off₀ + (tot + c) = bsize * ((off₀ + tot) / bsize + 1) := by
              rw [Nat.mul_succ]
              omega
            rw [hfull]
            exact Nat.mul_mod_right ..
          have hrest := ih (n - (tot + c)) (by omega) (tot + c) rfl (by omega) hstored.ok hsome' hnext
          rw [← Nat.add_assoc] at hrest
          apply hrest.mono
          rintro ⟨tot', off'⟩ s₃ - ⟨hoff, hge, hle, e, hend, hst, hfull⟩
          refine ⟨hoff, by omega, hle, e, ⟨hend.le, hend.fits, hend.mapped, hend.spill, hend.start, ?_⟩, ?_, hfull⟩
          · intro hlt' he
            refine (hend.why hlt' he).imp_right fun hmiss => ?_
            by_contra hne
            exact hne ((hstored.kept _ hne).symm.trans hmiss)
          · exact hstored.trans hst (by omega) (by have := hend.le; omega)
        · rw [if_pos hc]
          -- the copy failed: the buffer is changed up to the page that is not mapped
          apply Returns.seq_update
          have hnone := hcnone (by omega)
          refine .ret ⟨rfl, le_rfl, htot, tot + c, ⟨by omega, by omega, hsome', ?_, hstart, ?_⟩, ?_,
            fun _ => .inl hnone⟩
          · intro _
            refine ⟨by omega, hnone, ?_⟩
            show (off₀ + tot) / bsize = (off₀ + (tot + c)) / bsize
            rw [← Nat.add_assoc]
            exact (div_bsize_add (by omega)).symm
          · intro _ he
            obtain rfl : c = 0 := by omega
            exact .inl hnone
          · rw [← Nat.add_assoc]
            exact hstored
    · rw [dif_neg hlt]
      have heq : tot = n := by omega
      subst heq
      have hsame : Mapped sb k s s := ⟨rfl, h, fun _ => rfl, fun _ _ => rfl⟩
      refine .ret ⟨rfl, le_rfl, le_rfl, tot, ⟨le_rfl, le_rfl, hsome, ?_, ?_, ?_⟩, hsame.stored _ _, ?_⟩ <;>
        exact fun hf => absurd hf (lt_irrefl _)

/-! ## Reading -/

theorem copiedOut_true (t m : Nat) : copiedOut (fun _ => true) t m = m := by
  unfold copiedOut
  have hall : (List.range m).takeWhile (fun _ => true) = List.range m :=
    takeWhile_eq_self_iff.mpr fun _ _ => rfl
  rw [hall, length_range]

/-- The bytes of the file from an offset on. -/
def Files.bytes (s : Files) (k : InodeId) (off m : Nat) : List UInt8 :=
  (List.range m).map fun i => s.byteAt k (off + i)

theorem Files.bytes_add (off m m' : Nat) :
    s.bytes k off (m + m') = s.bytes k off m ++ s.bytes k (off + m) m' := by
  unfold bytes
  rw [range_add, map_append, map_map]
  congr 1
  apply map_congr_left
  intro i _
  show s.byteAt k (off + (m + i)) = _
  rw [Nat.add_assoc]

/-- The bytes of the file that are in one block. -/
theorem bytesOf_block {off m : Nat} (hne : s.fileBlock k (off / bsize) ≠ 0)
    (hm : m ≤ bsize - off % bsize) :
    bytesOf (s.block (s.fileBlock k (off / bsize)).toNat) (off % bsize) m = s.bytes k off m := by
  unfold bytesOf Files.bytes
  apply map_congr_left
  intro i hi
  rw [mem_range] at hi
  have hdiv : (off + i) / bsize = off / bsize := div_bsize_add (by omega)
  have hrem : (off + i) % bsize = off % bsize + i := by
    have := Nat.div_add_mod (off + i) bsize
    have := Nat.div_add_mod off bsize
    rw [hdiv] at *
    omega
  unfold Files.byteAt Files.fileData
  rw [hdiv, hrem, if_neg hne]

/-- **The loop of `readi`** returns the bytes, as long as no block is missing. -/
theorem readLoop_run {off₀ n : Nat}
    (hmapped : ∀ x, x < off₀ + n → s.fileBlock k (x / bsize) ≠ 0) :
    ∀ (d tot : Nat) (out : List UInt8), n - tot = d → tot ≤ n →
    readLoop sb k (fun _ => true) n tot (off₀ + tot) out s =
      .ok (((n : Int), out ++ s.bytes k (off₀ + tot) (n - tot)), s, []) := by
  intro d
  induction d using Nat.strongRecOn with
  | _ d ih =>
    intro tot out hd htot
    rw [readLoop]
    by_cases hlt : tot < n
    · have hne := hmapped (off₀ + tot) (by omega)
      rw [dif_pos hlt, bind_of_ok (bmap_run hne), if_neg hne, get_bind_apply]
      rw [copiedOut_true, if_neg (fun hf => hf rfl)]
      have hmod : (off₀ + tot) % bsize < bsize := Nat.mod_lt _ (by decide)
      have hpos : 0 < min (n - tot) (bsize - (off₀ + tot) % bsize) := by omega
      have hmin : min (n - tot) (bsize - (off₀ + tot) % bsize) ≤ n - tot := Nat.min_le_left ..
      rw [bytesOf_block hne (Nat.min_le_right ..)]
      generalize min (n - tot) (bsize - (off₀ + tot) % bsize) = c at hpos hmin ⊢
      have hrest := ih (n - (tot + c)) (by omega) (tot + c) (out ++ s.bytes k (off₀ + tot) c) rfl
        (by omega)
      rw [← Nat.add_assoc] at hrest
      have hsum : n - tot = c + (n - (tot + c)) := by omega
      rw [hrest, hsum, bytes_add, append_assoc]
    · have heq : tot = n := by omega
      subst heq
      rw [dif_neg hlt, Nat.sub_self]
      show Except.ok (((tot : Int), out), s, []) = Except.ok (((tot : Int), out ++ []), s, [])
      rw [append_nil]

/-! ## The file as an array -/

/-- **An inode that holds a file**: its blocks are different marked data blocks, and none below its size is
missing. -/
structure FileOk (sb : Superblock) (s : Files) (k : InodeId) : Prop where
  blocks : BlocksOk sb s k
  inum : (s.inode k).inum < sb.ninodes
  mapped : ∀ x, x < (s.inode k).size.toNat → s.fileBlock k (x / bsize) ≠ 0

/-- A block number beyond the largest one is missing, so the size is possible. -/
theorem FileOk.size (h : FileOk sb s k) : (s.inode k).size.toNat ≤ maxfile * bsize := by
  by_contra hlt
  have := lt_maxfile (h.mapped _ (Nat.not_le.mp hlt))
  rw [Nat.mul_div_cancel _ (by decide)] at this
  exact lt_irrefl _ this

/-- A file without blocks. -/
theorem BlocksOk.empty (haddrs : ∀ i, (s.inode k).addrs i = 0) (hmeta : MetaMarked sb s) :
    BlocksOk sb s k := by
  have hnum : ∀ p, s.fileNum k p = 0 := by
    intro p
    cases p with
    | none => exact haddrs _
    | some bn =>
      show s.fileBlock k bn = 0
      by_cases hd : bn.val < ndirect
      · rw [fileBlock_direct hd]
        exact haddrs _
      · exact fileBlock_missing hd (haddrs _)
  exact ⟨⟨fun hp => absurd (hnum _) hp, fun hp => absurd (hnum _) hp, fun hp => absurd (hnum _) hp⟩, hmeta⟩

/-- A file without blocks is sound. -/
theorem FileOk.empty (haddrs : ∀ i, (s.inode k).addrs i = 0) (hsize : (s.inode k).size = 0)
    (hinum : (s.inode k).inum < sb.ninodes) (hmeta : MetaMarked sb s) : FileOk sb s k := by
  refine ⟨.empty haddrs hmeta, hinum, ?_⟩
  rw [hsize]
  exact fun x hx => absurd hx (Nat.not_lt_zero x)

/-- A file in the abstract: the bytes below the size count. -/
structure ByteArr where
  size : Nat
  byte : Nat → UInt8

def Files.file (s : Files) (k : InodeId) : ByteArr := ⟨(s.inode k).size.toNat, s.byteAt k⟩

/-- The calls, with buffers in the memory of the kernel. -/
inductive FileCall where
  | readi (off n : UInt32)
  | writei (src : Nat → UInt8) (off n : UInt32)

/-- What a call returns; `readi` also fills its buffer. -/
inductive FileAnswer where
  | read (result : Int) (bytes : List UInt8)
  | wrote (result : Int)
  deriving DecidableEq

def FileCall.run (sb : Superblock) (k : InodeId) : FileCall → FilesM FileAnswer
  | .readi off n => do
      let (r, bytes) ← Xv6.readi sb k (fun _ => true) off n
      return .read r bytes
  | .writei src off n => return .wrote (← Xv6.writei sb k (fun i => some (src i)) off n)

/-- What a call does to an array. -/
def ByteArr.Step (f : ByteArr) : FileCall × FileAnswer → ByteArr → Prop
  | (.readi off n, .read r bytes), f' => f' = f ∧ r = bytes.length ∧ bytes =
      if f.size < off.toNat ∨ 2 ^ 32 ≤ off.toNat + n.toNat then []
      else (List.range (min n.toNat (f.size - off.toNat))).map fun i => f.byte (off.toNat + i)
  | (.writei src off n, .wrote r), f' =>
    if f.size < off.toNat ∨ 2 ^ 32 ≤ off.toNat + n.toNat ∨ maxfile * bsize < off.toNat + n.toNat then
      r = -1 ∧ f' = f
    else ∃ tot : Nat, tot ≤ n.toNat ∧ r = tot ∧ f'.size = max f.size (off.toNat + tot) ∧
      ∀ x, f'.byte x =
        if off.toNat ≤ x ∧ x < off.toNat + tot then src (x - off.toNat) else f.byte x
  | _, _ => False

/-- A write that is not refused. -/
theorem ByteArr.Step.stored {f f' : ByteArr} {src : Nat → UInt8} {off n : UInt32} {r : Int}
    (h : f.Step (.writei src off n, .wrote r) f') (hoff : off.toNat ≤ f.size)
    (hmax : off.toNat + n.toNat ≤ maxfile * bsize) :
    ∃ tot : Nat, tot ≤ n.toNat ∧ r = tot ∧ f'.size = max f.size (off.toNat + tot) ∧
      ∀ x, f'.byte x =
        if off.toNat ≤ x ∧ x < off.toNat + tot then src (x - off.toNat) else f.byte x := by
  have hbig : maxfile * bsize < 2 ^ 32 := by decide
  have hcond : ¬ (f.size < off.toNat ∨ 2 ^ 32 ≤ off.toNat + n.toNat ∨
      maxfile * bsize < off.toNat + n.toNat) := by omega
  unfold ByteArr.Step at h
  dsimp only at h
  rwa [if_neg hcond] at h

theorem add_wraps {off n : UInt32} : off + n < off ↔ 2 ^ 32 ≤ off.toNat + n.toNat := by
  rw [UInt32.lt_iff_toNat_lt, UInt32.toNat_add]
  have := off.toNat_lt
  have := n.toNat_lt
  omega

theorem toNat_add_of_not_wraps {off n : UInt32} (h : ¬ off + n < off) :
    (off + n).toNat = off.toNat + n.toNat := by
  rw [add_wraps] at h
  rw [UInt32.toNat_add]
  omega

/-- **`readi`** returns the bytes of the array and changes nothing. -/
theorem readi_file (hmapped : ∀ x, x < (s.inode k).size.toNat → s.fileBlock k (x / bsize) ≠ 0)
    (off n : UInt32) : ∃ r bytes,
    readi sb k (fun _ => true) off n s = .ok ((r, bytes), s, []) ∧
      (s.file k).Step (.readi off n, .read r bytes) (s.file k) := by
  unfold readi
  rw [get_bind_apply]
  dsimp only
  by_cases hbad : (s.inode k).size < off ∨ off + n < off
  · rw [if_pos hbad]
    refine ⟨0, [], rfl, rfl, rfl, ?_⟩
    rw [UInt32.lt_iff_toNat_lt, add_wraps] at hbad
    exact (if_pos hbad).symm
  · rw [if_neg hbad]
    obtain ⟨hle, hwrap⟩ := not_or.mp hbad
    have hsum := toNat_add_of_not_wraps hwrap
    rw [UInt32.lt_iff_toNat_lt] at hle
    obtain ⟨m, hm⟩ : ∃ m, m = if (s.inode k).size < off + n then (s.inode k).size - off else n :=
      ⟨_, rfl⟩
    have hmin : m.toNat = min n.toNat ((s.inode k).size.toNat - off.toNat) := by
      rw [hm]
      split
      · next hlt =>
          rw [UInt32.lt_iff_toNat_lt] at hlt
          rw [UInt32.toNat_sub_of_le _ _ (UInt32.le_iff_toNat_le.mpr (by omega))]
          omega
      · next hge =>
          rw [UInt32.lt_iff_toNat_lt] at hge
          omega
    rw [← hm]
    have hin : ∀ x, x < off.toNat + m.toNat → s.fileBlock k (x / bsize) ≠ 0 := fun x hx => hmapped x (by omega)
    have hrun : readLoop sb k _ _ 0 _ [] s = _ := readLoop_run hin m.toNat 0 [] rfl (Nat.zero_le _)
    rw [Nat.add_zero, nil_append, Nat.sub_zero] at hrun
    refine ⟨_, _, hrun, rfl, ?_, ?_⟩
    · unfold Files.bytes
      rw [length_map, length_range]
    · rw [UInt32.lt_iff_toNat_lt, add_wraps] at hbad
      rw [hmin]
      exact (if_neg hbad).symm

/-- A change outside of the data blocks and of `addrs`. -/
theorem BlocksOk.congr (h : BlocksOk sb s k) (ha : (s'.inode k).addrs = (s.inode k).addrs)
    (hb : ∀ x, sb.dataStart ≤ x → s'.block x = s.block x) (hu : s'.used sb = s.used sb)
    (hm : MetaMarked sb s') :
    BlocksOk sb s' k ∧ (∀ bn, s'.fileBlock k bn = s.fileBlock k bn) ∧
      ∀ x, s'.byteAt k x = s.byteAt k x := by
  have hind : s.fileNum k none ≠ 0 →
      s'.block (s.fileNum k none).toNat = s.block (s.fileNum k none).toNat :=
    fun h0 => hb _ (h.owned.good h0).1
  have hblock : ∀ bn, s'.fileBlock k bn = s.fileBlock k bn := fun bn => fileBlock_congr ha hind
  refine ⟨⟨?_, hm⟩, hblock, ?_⟩
  · rw [fileNum_congr ha hind, hu]
    exact h.owned
  · intro x
    unfold Files.byteAt Files.fileData
    rw [hblock]
    by_cases h0 : s.fileBlock k (x / bsize) = 0
    · rw [if_pos h0, if_pos h0]
    · rw [if_neg h0, if_neg h0, hb _ (h.dataStart_le h0)]

theorem used_of_block (hb : s'.block = s.block) : s'.used sb = s.used sb := by
  unfold Files.used Files.marked
  rw [hb]

theorem BlocksOk.of_block (h : BlocksOk sb s k) (ha : (s'.inode k).addrs = (s.inode k).addrs)
    (hb : s'.block = s.block) : BlocksOk sb s' k ∧ (∀ bn, s'.fileBlock k bn = s.fileBlock k bn) ∧
      ∀ x, s'.byteAt k x = s.byteAt k x := by
  refine h.congr ha (fun _ _ => by rw [hb]) (used_of_block hb) fun b hlt => ?_
  unfold Files.marked
  rw [hb]
  exact h.metaMarked b hlt

theorem DiskFull.congr (h : DiskFull sb s) (hu : s'.used sb = s.used sb) : DiskFull sb s' := by
  intro b hb
  have hsize := sb.size_lt
  have hval : (UInt32.ofNat b).toNat = b := by
    rw [UInt32.toNat_ofNat']
    exact Nat.mod_eq_of_lt (by omega)
  have hmem : UInt32.ofNat b ∈ s.used sb := by
    show (UInt32.ofNat b).toNat < _ ∧ _
    rw [hval]
    exact ⟨hb, h b hb⟩
  rw [← hu] at hmem
  have hmark := hmem.2
  rw [hval] at hmark
  exact hmark

/-- The fields of an inode that `writei` does not write. -/
def Inode.fixed (ip : Inode) : Int16 × Nat × Nat := (ip.type, ip.inum, ip.ref)

/-- The file after the bytes up to `off + e` were stored, of which `tot` count. -/
structure Extended (sb : Superblock) (k : InodeId) (s s' : Files) (off tot e : Nat) (val : Nat → UInt8) :
    Prop where
  ok : FileOk sb s' k
  fixed : (s'.inode k).fixed = (s.inode k).fixed
  size : (s'.inode k).size.toNat = max (s.inode k).size.toNat (off + tot)
  byte : ∀ x, s'.byteAt k x = if off ≤ x ∧ x < off + e then val x else s.byteAt k x

/-- The end of `writei`: the size, and `iupdate`. Of the bytes that were stored it may report fewer. -/
theorem Stored.close {s₁ : Files} {off tot e : Nat} {val : Nat → UInt8} (h : FileOk sb s k)
    (hst : Stored sb k s s₁ off (off + e) val) (hte : tot ≤ e) (hoff : off ≤ (s.inode k).size.toNat)
    (hmax : off + tot ≤ maxfile * bsize) :
    Returns (do
        if (s.inode k).size.toNat < off + tot then
          modify fun s => s.setInode k { s.inode k with size := UInt32.ofNat (off + tot) }
        iupdate sb k
        return (tot : Int) : FilesM Int)
      (fun r s' _ => r = tot ∧ Extended sb k s s' off tot e val ∧ (DiskFull sb s₁ → DiskFull sb s')) s₁ := by
  -- the size in memory
  obtain ⟨s₂, hs₂⟩ : ∃ s₂ : Files, s₂ = if (s.inode k).size.toNat < off + tot then
    s₁.setInode k { s₁.inode k with size := UInt32.ofNat (off + tot) } else s₁ := ⟨_, rfl⟩
  have hblock : s₂.block = s₁.block := by
    rw [hs₂]
    split <;> rfl
  have hself : s₂.inode k = { s₁.inode k with size := (s₂.inode k).size } := by
    rw [hs₂]
    split
    · unfold Files.setInode
      dsimp only
      rw [update_self]
    · rfl
  have hsize : (s₂.inode k).size.toNat = max (s.inode k).size.toNat (off + tot) := by
    rw [hs₂]
    split
    · next hlt =>
        unfold Files.setInode
        dsimp only
        rw [update_self]
        show (UInt32.ofNat (off + tot)).toNat = _
        rw [UInt32.toNat_ofNat', Nat.mod_eq_of_lt (lt_of_le_of_lt hmax (by decide)),
          Nat.max_eq_right (by omega)]
    · rw [hst.inode]
      show (s.inode k).size.toNat = _
      omega
  obtain ⟨hok₂, hfile₂, hbyte₂⟩ := hst.ok.of_block (by rw [hself]) hblock
  have hinum : (s₂.inode k).inum < sb.ninodes := by
    rw [hself, hst.inode]
    exact h.inum
  have hstep : Returns (iupdate sb k >>= fun _ => return (tot : Int) : FilesM Int)
      (fun r s' _ => r = tot ∧ Extended sb k s s' off tot e val ∧ (DiskFull sb s₁ → DiskFull sb s')) s₂ := by
    apply Returns.seq
    apply (iupdate_spec hinum).mono
    rintro ⟨⟩ s' l ⟨hw, -⟩
    apply Returns.ret
    obtain ⟨hok, hfile, hbyte⟩ := hok₂.congr (by rw [hw.inode]) hw.block hw.used
      (hw.metaMarked hok₂.metaMarked)
    have hsize' : (s'.inode k).size.toNat = max (s.inode k).size.toNat (off + tot) := by
      rw [hw.inode, hsize]
    refine ⟨rfl, ⟨⟨hok, by rw [hw.inode]; exact hinum, ?_⟩, ?_, hsize', ?_⟩, ?_⟩
    · intro x hx
      rw [hfile, hfile₂]
      by_cases hin : off ≤ x ∧ x < off + tot
      · exact hst.there x hin.1 (by omega)
      · have hne := h.mapped x (by omega)
        rw [hst.kept _ hne]
        exact hne
    · rw [hw.inode, hself, hst.inode]
      rfl
    · intro x
      rw [hbyte, hbyte₂, hst.byte]
    · exact fun hf => hf.congr (hw.used.trans (used_of_block hblock))
  by_cases hlt : (s.inode k).size.toNat < off + tot
  · rw [if_pos hlt] at hs₂ ⊢
    apply Returns.seq_update
    rw [← hs₂]
    exact hstep
  · rw [if_neg hlt] at hs₂ ⊢
    subst hs₂
    exact hstep

/-- **`writei`**, from user memory or from the kernel's: what it reports, and what it has stored. -/
theorem writei_user (h : FileOk sb s k) (src : Nat → Option UInt8) (off n : UInt32) :
    Returns (writei sb k src off n) (fun r s' l =>
      (r = -1 ∧ s' = s ∧ l = [] ∧
        ((s.inode k).size.toNat < off.toNat ∨ maxfile * bsize < off.toNat + n.toNat)) ∨
      ∃ tot e : Nat, r = tot ∧ off.toNat ≤ (s.inode k).size.toNat ∧ off.toNat + n.toNat ≤ maxfile * bsize ∧
        Ended s k src off.toNat n.toNat tot e ∧
        Extended sb k s s' off.toNat tot e (fun x => bufferByte src (x - off.toNat)) ∧
        (tot < n.toNat → src e = none ∨ DiskFull sb s')) s := by
  unfold writei
  apply Returns.seq_get
  dsimp only
  have hbig : maxfile * bsize < 2 ^ 32 := by decide
  split
  · next hout =>
      refine .ret (.inl ⟨rfl, rfl, rfl, ?_⟩)
      rw [UInt32.lt_iff_toNat_lt, add_wraps] at hout
      omega
  · next hin =>
      have hsum := toNat_add_of_not_wraps (not_or.mp hin).2
      have hoff : off.toNat ≤ (s.inode k).size.toNat :=
        Nat.not_lt.mp fun hlt => hin (.inl (UInt32.lt_iff_toNat_lt.mpr hlt))
      split
      · next hover =>
          rw [hsum] at hover
          exact .ret (.inl ⟨rfl, rfl, rfl, .inr hover⟩)
      · next hmax =>
          rw [hsum] at hmax
          apply Returns.seq
          have hloop := writeLoop_user src (Nat.not_lt.mp hmax) _ 0 rfl (Nat.zero_le _) h.blocks
            (fun i hi => absurd hi (Nat.not_lt_zero i)) fun _ => .inl rfl
          rw [Nat.add_zero] at hloop
          apply hloop.mono
          rintro ⟨tot, off'⟩ s₁ l₁ ⟨hoff', -, hle, e, hend, hst, hfull⟩
          dsimp only at hoff' hle hend hfull ⊢
          subst hoff'
          apply (hst.close h hend.le hoff (by omega)).mono
          rintro r s' l ⟨rfl, hext, hdisk⟩
          exact .inr ⟨tot, e, rfl, hoff, Nat.not_lt.mp hmax, hend, hext, fun hlt => (hfull hlt).imp_right hdisk⟩

/-- **`writei`** stores the bytes that it reports; all of them unless the disk is full. -/
theorem writei_file (h : FileOk sb s k) (src : Nat → UInt8) (off n : UInt32) :
    Returns (writei sb k (fun i => some (src i)) off n) (fun r s' l => FileOk sb s' k ∧
      (s'.inode k).fixed = (s.inode k).fixed ∧ (s.file k).Step (.writei src off n, .wrote r) (s'.file k) ∧
      (r = -1 → s' = s ∧ l = []) ∧ (r ≠ -1 → r < n.toNat → DiskFull sb s')) s := by
  apply (writei_user h (fun i => some (src i)) off n).mono
  rintro r s' l (⟨rfl, rfl, rfl, hbad⟩ | ⟨tot, e, rfl, hoff, hmax, hend, hext, hfull⟩)
  · refine ⟨h, rfl, ?_, fun _ => ⟨rfl, rfl⟩, fun hf => absurd rfl hf⟩
    exact (if_pos (hbad.imp_right .inr)).mpr ⟨rfl, rfl⟩
  · -- a copy within the kernel does not fail
    obtain rfl : tot = e := by
      by_contra hne
      exact nomatch (hend.spill (lt_of_le_of_ne hend.le hne)).2.1
    refine ⟨hext.ok, hext.fixed, ?_, fun hf => by omega, fun _ hlt => ?_⟩
    · have hbig : maxfile * bsize < 2 ^ 32 := by decide
      have hcond : ¬ ((s.file k).size < off.toNat ∨ 2 ^ 32 ≤ off.toNat + n.toNat ∨
          maxfile * bsize < off.toNat + n.toNat) := by
        have hsize : off.toNat ≤ (s.file k).size := hoff
        omega
      exact (if_neg hcond).mpr ⟨tot, hend.fits, rfl, hext.size, hext.byte⟩
    · exact (hfull (by omega)).resolve_left nofun

/-- A write inside one block, when there is a block, is not cut short. -/
theorem writei_one {off n : UInt32} (src : Nat → UInt8)
    (hoff : off.toNat ≤ (s.inode k).size.toNat) (hmax : off.toNat + n.toNat ≤ maxfile * bsize)
    (hpos : 0 < n.toNat) (hfit : off.toNat % bsize + n.toNat ≤ bsize)
    (hroom : Returns (bmap sb k (off.toNat / bsize)) (fun a _ _ => a ≠ 0) s) :
    Returns (writei sb k (fun i => some (src i)) off n) (fun r _ _ => r = n.toNat) s := by
  have hbig : maxfile * bsize < 2 ^ 32 := by decide
  have hnowrap : ¬ off + n < off := by
    rw [add_wraps]
    omega
  have hsum := toNat_add_of_not_wraps hnowrap
  unfold writei
  apply Returns.seq_get
  dsimp only
  rw [if_neg (not_or.mpr ⟨by rw [UInt32.lt_iff_toNat_lt]; omega, hnowrap⟩), if_neg (by rw [hsum]; omega)]
  apply Returns.seq
  rw [writeLoop, dif_pos hpos]
  apply Returns.seq
  apply hroom.mono
  intro a s₁ l₁ ha
  rw [if_neg ha]
  apply Returns.seq_get
  dsimp only
  rw [copied_some, if_neg fun hf => hf rfl, Nat.sub_zero, Nat.min_eq_left (by omega)]
  apply Returns.seq
  refine .of_ok (logBlock_run _ _ s₁) ?_
  rw [Nat.zero_add, writeLoop, dif_neg (lt_irrefl _)]
  refine .ret ?_
  have hend : ∀ s₂ : Files, Returns (iupdate sb k >>= fun _ => return (n.toNat : Int) : FilesM Int)
      (fun r _ _ => r = n.toNat) s₂ := fun s₂ => Returns.seq (.of_ok rfl (.ret rfl))
  dsimp only
  split
  · exact Returns.seq_update (hend _)
  · exact hend _

/-- A call that returns. -/
def FileCall.Step (sb : Superblock) (k : InodeId) (s : Files) (a : FileCall × FileAnswer) (s' : Files) :
    Prop := ∃ l, a.1.run sb k s = .ok (a.2, s', l)

theorem FileCall.run_readi {off n : UInt32} {r : Int} {bytes : List UInt8}
    (h : Xv6.readi sb k (fun _ => true) off n s = .ok ((r, bytes), s, [])) :
    (FileCall.readi off n).run sb k s = .ok (.read r bytes, s, []) := by
  show (Xv6.readi sb k (fun _ => true) off n >>= fun x => pure (FileAnswer.read x.1 x.2)) s = _
  rw [bind_of_ok h]
  rfl

/-- **Every call returns** and does to the array what it should. -/
theorem FileOk.call (h : FileOk sb s k) (c : FileCall) :
    Returns (c.run sb k) (fun answer s' _ => FileOk sb s' k ∧
      (s.file k).Step (c, answer) (s'.file k) ∧ (answer = .wrote (-1) → s' = s) ∧
      ∀ src off n r, c = .writei src off n → answer = .wrote r → r ≠ -1 → r < n.toNat →
        DiskFull sb s') s := by
  cases c with
  | readi off n =>
    obtain ⟨r, bytes, hrun, hstep⟩ := readi_file h.mapped off n
    exact ⟨.read r bytes, s, [], FileCall.run_readi hrun, h, hstep, fun hf => (by cases hf),
      fun _ _ _ _ hc => (by cases hc)⟩
  | writei src off n =>
    apply Returns.seq
    apply (writei_file h src off n).mono
    rintro r s' l ⟨hok, -, hstep, hbad, hfull⟩
    refine .ret ⟨hok, hstep, ?_, ?_⟩
    · intro hr
      cases hr
      exact (hbad rfl).1
    · intro src' off' n' r' hc hr
      cases hc
      cases hr
      exact hfull

/-- **A file is an array of bytes.** For every sequence of calls on a sound inode: what the calls return
is what they return for an array, and the next call returns as well. A write that is refused changes
nothing, and one that stops early has filled the disk. -/
theorem file_is_array {s₀ : Files} {as : List (FileCall × FileAnswer)} (h₀ : FileOk sb s₀ k)
    (hrun : Run (FileCall.Step sb k) s₀ as s) :
    Run ByteArr.Step (s₀.file k) as (s.file k) ∧
    ∀ c, Returns (FileCall.run sb k c) (fun answer s' _ =>
      (s.file k).Step (c, answer) (s'.file k) ∧ (answer = .wrote (-1) → s' = s) ∧
      ∀ src off n r, c = .writei src off n → answer = .wrote r → r ≠ -1 → r < n.toNat →
        DiskFull sb s') s := by
  have hstep : ∀ {s s' : Files} {a : FileCall × FileAnswer}, FileOk sb s k →
      FileCall.Step sb k s a s' → FileOk sb s' k ∧ (s.file k).Step a (s'.file k) := by
    rintro s s' ⟨c, answer⟩ h ⟨l, hrun⟩
    obtain ⟨answer', s₁, l₁, hrun', hok, hdo, -⟩ := h.call c
    rw [hrun] at hrun'
    cases hrun'
    exact ⟨hok, hdo⟩
  have hboth : FileOk sb s k ∧ Run ByteArr.Step (s₀.file k) as (s.file k) := by
    induction hrun with
    | nil => exact ⟨h₀, .nil⟩
    | snoc _ hs ih =>
      obtain ⟨hok, hdo⟩ := hstep ih.1 hs
      exact ⟨hok, ih.2.snoc hdo⟩
  refine ⟨hboth.2, fun c => (hboth.1.call c).mono ?_⟩
  rintro answer s' _ ⟨-, hdo⟩
  exact hdo

/-! ## Files that are no arrays -/

/-- An empty file, with a bitmap and a size. -/
def blank (bitmap : Block) (size : UInt32) : Files :=
  (smallImage bitmap).setInode 0 ⟨{ Dinode.zero with type := 2, size := size }, 1, 1, true⟩

/-- A file of one block, number 56, which is not marked. -/
def unmarked : Files :=
  ((smallImage partBitmap).setBlock 56 fun _ => 7).setInode 0
    ⟨{ Dinode.zero with type := 2, size := 1024, addrs := update (fun _ => 0) 0 56 }, 1, 1, true⟩

/-- A bitmap in which only the block of the inodes is not marked. -/
def inodeBitmap : Block := fun j => if j.val = 4 then 254 else 255

/-- **No condition can be dropped.** Of a file with one byte, whose block is missing on a full disk,
`readi` returns nothing. A write behind the only block of a file, which is not marked, gets the same
block and changes the first byte. A write to an empty file gets the block of the inodes, which is
not marked, and a part of it is overwritten with the inode. -/
theorem file_is_array_fails :
    (BlocksOk smallDisk (blank (fun _ => 255) 1) 0 ∧ ¬ Returns ((FileCall.readi 0 1).run smallDisk 0)
      (fun answer s' _ => ((blank (fun _ => 255) 1).file 0).Step (.readi 0 1, answer) (s'.file 0))
      (blank (fun _ => 255) 1)) ∧
    (MetaMarked smallDisk unmarked ∧ (∀ x < 1024, unmarked.fileBlock 0 (x / bsize) = 56) ∧
      ¬ Returns ((FileCall.writei (fun _ => 9) 1024 1).run smallDisk 0)
        (fun answer s' _ => (unmarked.file 0).Step (.writei (fun _ => 9) 1024 1, answer) (s'.file 0)) unmarked) ∧
    ((∀ b, b ≠ 32 → b < smallDisk.size → (blank inodeBitmap 0).marked smallDisk b = true) ∧
      ¬ Returns ((FileCall.writei (fun _ => 9) 0 100).run smallDisk 0)
        (fun answer s' _ => ((blank inodeBitmap 0).file 0).Step (.writei (fun _ => 9) 0 100, answer) (s'.file 0))
        (blank inodeBitmap 0)) := by
  refine ⟨⟨.empty (by decide) ?_, fun hstep => ?_⟩, ⟨?_, by decide +kernel, fun hstep => ?_⟩, ?_, fun hstep => ?_⟩
  · have hmeta : ∀ b < 50, (blank (fun _ => 255) 1).marked smallDisk b = true := by decide +kernel
    exact hmeta
  · have hread : Returns ((FileCall.readi 0 1).run smallDisk 0) (fun answer _ _ => answer = .read 0 [])
        (blank (fun _ => 255) 1) := by decide +kernel
    obtain ⟨_, s', l, -, hstep, rfl⟩ := hstep.and hread
    exact absurd (congrArg length hstep.2.2) (by decide +kernel)
  · have hmeta : ∀ b < 50, unmarked.marked smallDisk b = true := by decide +kernel
    exact hmeta
  · have hwrite : Returns ((FileCall.writei (fun _ => 9) 1024 1).run smallDisk 0)
        (fun answer s' _ => answer = .wrote 1 ∧ s'.byteAt 0 0 ≠ unmarked.byteAt 0 0) unmarked := by
      decide +kernel
    obtain ⟨_, s', l, -, hstep, rfl, hne⟩ := hstep.and hwrite
    obtain ⟨tot, -, -, -, hbyte⟩ := hstep.stored (by decide) (by decide)
    exact hne ((hbyte 0).trans (if_neg (by simp)))
  · have hmark : ∀ b < 100, b ≠ 32 → (blank inodeBitmap 0).marked smallDisk b = true := by decide +kernel
    exact fun b hb hlt => hmark b hlt hb
  · have hwrite : Returns ((FileCall.writei (fun _ => 9) 0 100).run smallDisk 0)
        (fun answer s' _ => answer = .wrote 100 ∧ s'.byteAt 0 64 ≠ 9) (blank inodeBitmap 0) := by
      decide +kernel
    obtain ⟨_, s', l, -, hstep, rfl, hne⟩ := hstep.and hwrite
    obtain ⟨tot, -, htot, -, hbyte⟩ := hstep.stored (by decide) (by decide)
    exact hne ((hbyte 64).trans (if_pos ⟨by simp, by simp; omega⟩))

/-- An empty file on a disk with free blocks. -/
def emptyFile : Files := blank partBitmap 0

theorem emptyFile_ok : FileOk smallDisk emptyFile 0 := by
  have hmeta : ∀ b < 50, emptyFile.marked smallDisk b = true := by decide +kernel
  exact .empty (by decide) rfl (by decide) hmeta

/-- Ten bytes are written and some of them read. -/
def rewriting : List (FileCall × FileAnswer) :=
  [(.writei (fun _ => 7) 0 10, .wrote 10), (.readi 8 9, .read 2 [7, 7])]

/-- The array gives the same answers. -/
theorem file_is_array_rewriting : ∃ s, Run (FileCall.Step smallDisk 0) emptyFile rewriting s ∧
    Run ByteArr.Step (emptyFile.file 0) rewriting (s.file 0) := by
  obtain ⟨_, s₁, l₁, h₁, rfl, _, s₂, l₂, h₂, rfl⟩ : Returns ((FileCall.writei (fun _ => 7) 0 10).run smallDisk 0)
      (fun answer s₁ _ => answer = .wrote 10 ∧ Returns ((FileCall.readi 8 9).run smallDisk 0)
        (fun answer _ _ => answer = .read 2 [7, 7]) s₁) emptyFile := by decide +kernel
  have hwrite : FileCall.Step smallDisk 0 emptyFile (.writei (fun _ => 7) 0 10, .wrote 10) s₁ := ⟨l₁, h₁⟩
  have hrun : Run (FileCall.Step smallDisk 0) emptyFile rewriting s₂ := (Run.single hwrite).snoc ⟨l₂, h₂⟩
  exact ⟨s₂, hrun, (file_is_array emptyFile_ok hrun).1⟩

end Xv6
