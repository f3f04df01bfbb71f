import Xv6.Fs.Balloc

/-!
# Who owns a disk block

A block number stands in `addrs` of an allocated inode or in its indirect block. The invariant is that
such a block is a data block, is marked in the bitmap, and stands in one place only; it is kept by
every operation, whatever fails on the way. While an operation works on an inode, its copy in memory
is ahead of the one on disk, and counts instead of it; `iupdate` brings them together again.

The blocks below the first data block have to be marked too: `balloc` takes any block that is not.
-/

namespace Xv6

open TraceM Ownership Function Files List

/-! ## Places of block numbers -/

/-- An entry of `addrs` of an inode, or of its indirect block. -/
inductive Place where
  | slot (inum : Nat) (i : Fin (ndirect + 1))
  | entry (inum : Nat) (j : Fin nindirect)
  deriving DecidableEq

/-- The place of the indirect block of an inode. -/
abbrev Place.indirect (inum : Nat) : Place := .slot inum (Fin.last ndirect)

/-- The block number in a place; only allocated inodes have places that count. -/
def blockAt (ino : Nat → Dinode) (ent : UInt32 → Nat → UInt32) : Place → UInt32
  | .slot inum i => if (ino inum).type = 0 then 0 else (ino inum).addrs i
  | .entry inum j =>
    if (ino inum).type = 0 ∨ (ino inum).addrs (Fin.last ndirect) = 0 then 0
    else ent ((ino inum).addrs (Fin.last ndirect)) j

section blockAt

variable {ino ino' : Nat → Dinode} {ent ent' : UInt32 → Nat → UInt32} {inum : Nat}

theorem blockAt_slot (h : (ino inum).type ≠ 0) (i : Fin (ndirect + 1)) :
    blockAt ino ent (.slot inum i) = (ino inum).addrs i := if_neg h

theorem blockAt_slot_ent (ent' : UInt32 → Nat → UInt32) (i : Fin (ndirect + 1)) :
    blockAt ino ent (.slot inum i) = blockAt ino ent' (.slot inum i) := rfl

theorem blockAt_entry (h : (ino inum).type ≠ 0) (ha : (ino inum).addrs (Fin.last ndirect) ≠ 0)
    (j : Fin nindirect) :
    blockAt ino ent (.entry inum j) = ent ((ino inum).addrs (Fin.last ndirect)) j :=
  if_neg (not_or.mpr ⟨h, ha⟩)

theorem blockAt_entry_of_none (ha : (ino inum).addrs (Fin.last ndirect) = 0) (j : Fin nindirect) :
    blockAt ino ent (.entry inum j) = 0 := if_pos (.inr ha)

/-- Only the indirect blocks of allocated inodes matter. -/
theorem blockAt_congr (h : ∀ inum j, blockAt ino ent (.indirect inum) ≠ 0 → j < nindirect →
    ent (blockAt ino ent (.indirect inum)) j = ent' (blockAt ino ent (.indirect inum)) j) :
    blockAt ino ent = blockAt ino ent' := by
  funext p
  cases p with
  | slot inum i => rfl
  | entry inum j =>
    simp only [blockAt]
    split
    · rfl
    · next hc =>
        obtain ⟨ht, ha⟩ := not_or.mp hc
        have hi : blockAt ino ent (.indirect inum) = (ino inum).addrs (Fin.last ndirect) :=
          blockAt_slot ht _
        have := h inum j (by rw [hi]; exact ha) j.isLt
        rw [hi] at this
        exact this

/-- An inode whose block numbers stay what they are. -/
theorem blockAt_update_same {d : Dinode} (ht : d.type = 0 ↔ (ino inum).type = 0)
    (ha : d.addrs = (ino inum).addrs) : blockAt (update ino inum d) ent = blockAt ino ent := by
  funext p
  cases p with
  | slot x i =>
    by_cases hx : x = inum
    · subst hx
      simp only [blockAt, update_self, ha, ht]
    · simp only [blockAt, update_of_ne hx]
  | entry x j =>
    by_cases hx : x = inum
    · subst hx
      simp only [blockAt, update_self, ha, ht]
    · simp only [blockAt, update_of_ne hx]

/-- An inode without blocks, before and after. -/
theorem blockAt_update_empty {d : Dinode} (hd : d.type = 0 ∨ ∀ i, d.addrs i = 0)
    (hi : (ino inum).type = 0 ∨ ∀ i, (ino inum).addrs i = 0) :
    blockAt (update ino inum d) ent = blockAt ino ent := by
  have hzero : ∀ {e : Dinode} {f : Nat → Dinode}, f inum = e → (e.type = 0 ∨ ∀ i, e.addrs i = 0) →
      (∀ i, blockAt f ent (.slot inum i) = 0) ∧ ∀ j, blockAt f ent (.entry inum j) = 0 := by
    intro e f hf he
    subst hf
    constructor
    · intro i
      simp only [blockAt]
      rcases he with he | he
      · rw [if_pos he]
      · rw [he i]
        split <;> rfl
    · intro j
      simp only [blockAt]
      rcases he with he | he
      · rw [if_pos (.inl he)]
      · rw [if_pos (.inr (he _))]
  obtain ⟨hs, hs'⟩ := hzero (update_self inum d ino) hd
  obtain ⟨ht, ht'⟩ := hzero (f := ino) rfl hi
  funext p
  cases p with
  | slot x i =>
    by_cases hx : x = inum
    · subst hx
      rw [hs, ht]
    · simp only [blockAt, update_of_ne hx]
  | entry x j =>
    by_cases hx : x = inum
    · subst hx
      rw [hs', ht']
    · simp only [blockAt, update_of_ne hx]

/-- **A new number in an entry of `addrs`**; if it is that of the indirect block, no block is in the
indirect block before or after. -/
theorem blockAt_setAddr {d : Dinode} (ht : (ino inum).type ≠ 0) (htype : d.type = (ino inum).type)
    {i : Fin (ndirect + 1)} {a : UInt32} (ha : d.addrs = update (ino inum).addrs i a)
    (hbefore : i = Fin.last ndirect → ∀ j, blockAt ino ent (.entry inum j) = 0)
    (hafter : i = Fin.last ndirect → a ≠ 0 → ∀ j, j < nindirect → ent a j = 0) :
    blockAt (update ino inum d) ent =
      update (blockAt ino ent) (.slot inum i) a := by
  have hself : (update ino inum d) inum = d := update_self ..
  have htd : d.type ≠ 0 := by rw [htype]; exact ht
  funext p
  cases p with
  | slot x i' =>
    by_cases hx : x = inum
    · subst hx
      rw [blockAt_slot (by rw [hself]; exact htd), hself, ha]
      by_cases hi : i' = i
      · subst hi
        rw [update_self, update_self]
      · have hne : Place.slot x i' ≠ .slot x i := fun h => hi (by injection h)
        rw [update_of_ne hi, update_of_ne hne, blockAt_slot ht]
    · have hne : Place.slot x i' ≠ .slot inum i := fun h => hx (by injection h)
      rw [update_of_ne hne]
      simp only [blockAt, update_of_ne hx]
  | entry x j =>
    have hne : Place.entry x j ≠ .slot inum i := fun h => by cases h
    rw [update_of_ne hne]
    by_cases hx : x = inum
    · subst hx
      by_cases hi : i = Fin.last ndirect
      · rw [hbefore hi j]
        subst hi
        simp only [blockAt]
        rw [hself, ha, update_self]
        split
        · rfl
        · next hc => exact hafter rfl (not_or.mp hc).2 j j.isLt
      · simp only [blockAt, hself, ha, htype, update_of_ne (Ne.symm hi)]
    · simp only [blockAt, update_of_ne hx]

/-- **A new number in an indirect block** that one inode has. -/
theorem blockAt_setEntry (ht : (ino inum).type ≠ 0)
    (ha : (ino inum).addrs (Fin.last ndirect) ≠ 0) {j : Fin nindirect} {v : UInt32}
    (hself : ent' ((ino inum).addrs (Fin.last ndirect)) j = v)
    (hentry : ∀ b j', j' < nindirect → ¬ (b = (ino inum).addrs (Fin.last ndirect) ∧ j' = j) →
      ent' b j' = ent b j')
    (hunique : ∀ x, blockAt ino ent (.indirect x) = (ino inum).addrs (Fin.last ndirect) → x = inum) :
    blockAt ino ent' = update (blockAt ino ent) (.entry inum j) v := by
  funext p
  cases p with
  | slot x i =>
    have hne : Place.slot x i ≠ .entry inum j := fun h => by cases h
    rw [update_of_ne hne]
    rfl
  | entry x j' =>
    by_cases hp : Place.entry x j' = .entry inum j
    · injection hp with hx hj
      subst hx hj
      rw [update_self, blockAt_entry ht ha, hself]
    · rw [update_of_ne hp]
      simp only [blockAt]
      split
      · rfl
      · next hc =>
          obtain ⟨htx, hax⟩ := not_or.mp hc
          apply hentry _ _ j'.isLt
          rintro ⟨hb, hj⟩
          have hx := hunique x (by rw [blockAt_slot htx]; exact hb)
          subst hx
          exact hp (by rw [Fin.ext hj])

end blockAt

/-! ## An operation on an inode -/

/-- The inodes, that of the entry `k` of the table as it is in memory. -/
def Files.cur (sb : Superblock) (s : Files) (k : InodeId) : Nat → Dinode :=
  update (s.ino sb) (s.inode k).inum (s.inode k).toDinode

/-- The block numbers while an operation works on the inode `k`. -/
def Files.num (sb : Superblock) (s : Files) (k : InodeId) : Place → UInt32 :=
  blockAt (s.cur sb k) s.entry

/-- **The invariant**, for the block numbers that count. -/
structure Owns (sb : Superblock) (s : Files) (num : Place → UInt32) : Prop where
  owned : Owned (dataBlocks sb) (s.used sb) num
  metaMarked : MetaMarked sb s

/-- What an operation on the inode `k` leaves alone. -/
structure InodeFrame (sb : Superblock) (k : InodeId) (s s' : Files) : Prop where
  ino : s'.ino sb = s.ino sb
  other : ∀ l, l ≠ k → s'.inode l = s.inode l
  inum : (s'.inode k).inum = (s.inode k).inum
  ref : (s'.inode k).ref = (s.inode k).ref
  valid : (s'.inode k).valid = (s.inode k).valid
  type : (s'.inode k).type = (s.inode k).type

/-- **A part of an operation**: the invariant holds before and after, and blocks are handed out and
taken back as they should. -/
structure InodeMoved (sb : Superblock) (k : InodeId) (s s' : Files) (l : List FilesEvent) : Prop where
  frame : InodeFrame sb k s s'
  owns : Owns sb s' (s'.num sb k)
  traffic : Traffic (held (s.num sb k)) (changes l) (held (s'.num sb k))

variable {sb : Superblock} {k : InodeId} {s s' s'' : Files} {l l' : List FilesEvent}

theorem InodeFrame.refl (sb : Superblock) (k : InodeId) (s : Files) : InodeFrame sb k s s :=
  ⟨rfl, fun _ _ => rfl, rfl, rfl, rfl, rfl⟩

theorem InodeFrame.trans (h : InodeFrame sb k s s') (h' : InodeFrame sb k s' s'') : InodeFrame sb k s s'' :=
  ⟨h'.ino.trans h.ino, fun l hl => (h'.other l hl).trans (h.other l hl), h'.inum.trans h.inum,
    h'.ref.trans h.ref, h'.valid.trans h.valid, h'.type.trans h.type⟩

theorem InodeFrame.of_inode (hi : s'.inode = s.inode) (hd : s'.ino sb = s.ino sb) : InodeFrame sb k s s' :=
  ⟨hd, fun _ _ => by rw [hi], by rw [hi], by rw [hi], by rw [hi], by rw [hi]⟩

theorem InodeMoved.refl (h : Owns sb s (s.num sb k)) : InodeMoved sb k s s [] := ⟨.refl sb k s, h, rfl⟩

theorem InodeMoved.trans (h : InodeMoved sb k s s' l) (h' : InodeMoved sb k s' s'' l') :
    InodeMoved sb k s s'' (l ++ l') := by
  refine ⟨h.frame.trans h'.frame, h'.owns, ?_⟩
  rw [changes_append]
  exact h.traffic.append h'.traffic

namespace Files

theorem entry_congr {a : UInt32} (h : s'.block a.toNat = s.block a.toNat) (j : Nat) :
    s'.entry a j = s.entry a j := by
  unfold entry
  rw [h]

theorem cur_self : s.cur sb k (s.inode k).inum = (s.inode k).toDinode := update_self ..

theorem cur_type (ht : (s.inode k).type ≠ 0) : (s.cur sb k (s.inode k).inum).type ≠ 0 := by
  rw [cur_self]
  exact ht

theorem cur_congr (hi : s'.inode k = s.inode k) (hd : s'.ino sb = s.ino sb) :
    s'.cur sb k = s.cur sb k := by
  unfold cur
  rw [hi, hd]

/-- The number in an entry of `addrs` in memory. -/
theorem num_slot (ht : (s.inode k).type ≠ 0) (i : Fin (ndirect + 1)) :
    s.num sb k (.slot (s.inode k).inum i) = (s.inode k).addrs i := by
  unfold num
  rw [blockAt_slot (cur_type ht), cur_self]

theorem num_entry (ht : (s.inode k).type ≠ 0) (ha : (s.inode k).addrs (Fin.last ndirect) ≠ 0)
    (j : Fin nindirect) : s.num sb k (.entry (s.inode k).inum j) =
      s.entry ((s.inode k).addrs (Fin.last ndirect)) j := by
  unfold num
  rw [blockAt_entry (cur_type ht) (by rw [cur_self]; exact ha), cur_self]

theorem setAddr_inode_self (i : Fin (ndirect + 1)) (a : UInt32) :
    (s.setAddr k i a).inode k =
      { s.inode k with addrs := update (s.inode k).addrs i a } := update_self ..

theorem setAddr_inode_of_ne {t : InodeId} (h : t ≠ k) (i : Fin (ndirect + 1)) (a : UInt32) :
    (s.setAddr k i a).inode t = s.inode t := update_of_ne h ..

theorem setAddr_frame (i : Fin (ndirect + 1)) (a : UInt32) : InodeFrame sb k s (s.setAddr k i a) := by
  refine ⟨rfl, fun _ h => setAddr_inode_of_ne h i a, ?_, ?_, ?_, ?_⟩ <;> rw [setAddr_inode_self]

theorem cur_setAddr (i : Fin (ndirect + 1)) (a : UInt32) :
    (s.setAddr k i a).cur sb k = update (s.cur sb k) (s.inode k).inum
      { (s.inode k).toDinode with addrs := update (s.inode k).addrs i a } := by
  unfold cur
  rw [setAddr_inode_self, update_idem]
  rfl

/-- A new number in an entry of `addrs` in memory. -/
theorem num_setAddr (ht : (s.inode k).type ≠ 0) (i : Fin (ndirect + 1)) (a : UInt32)
    {ent : UInt32 → Nat → UInt32}
    (hbefore : i = Fin.last ndirect → ∀ j, blockAt (s.cur sb k) ent (.entry (s.inode k).inum j) = 0)
    (hafter : i = Fin.last ndirect → a ≠ 0 → ∀ j, j < nindirect → ent a j = 0) :
    blockAt ((s.setAddr k i a).cur sb k) ent =
      update (blockAt (s.cur sb k) ent) (.slot (s.inode k).inum i) a := by
  rw [cur_setAddr]
  apply blockAt_setAddr (cur_type ht)
  · rw [cur_self]
  · rw [cur_self]
  · exact hbefore
  · exact hafter

end Files

namespace Owns

variable {num : Place → UInt32} {p : Place}

theorem data (h : Owns sb s num) (hp : num p ≠ 0) : num p ∈ dataBlocks sb := h.owned.good hp

theorem dataStart_le (h : Owns sb s num) (hp : num p ≠ 0) : sb.dataStart ≤ (num p).toNat :=
  (h.data hp).1

/-- An indirect block belongs to one inode. -/
theorem indirect_unique (h : Owns sb s num) {x y : Nat} (hx : num (.indirect x) ≠ 0)
    (hxy : num (.indirect y) = num (.indirect x)) : y = x := by
  have := h.owned.unique hx hxy.symm
  injection this with hxy
  exact hxy.symm

end Owns

/-- Blocks that no inode has are not looked at. -/
theorem num_of_blocks (hi : s'.inode = s.inode)
    (hd : s'.ino sb = s.ino sb)
    (hb : ∀ x, s.num sb k (.indirect x) ≠ 0 →
      s'.block (s.num sb k (.indirect x)).toNat = s.block (s.num sb k (.indirect x)).toNat) :
    s'.num sb k = s.num sb k := by
  unfold Files.num at hb ⊢
  rw [cur_congr (by rw [hi]) hd]
  symm
  apply blockAt_congr
  intro x j hx _
  exact (entry_congr (hb x hx) j).symm

/-- After `balloc` the block is marked and in no place yet. -/
theorem Files.Allocated.owns {a : UInt32} (ha : Files.Allocated sb s s' a)
    (h : Owns sb s (s.num sb k)) : s'.num sb k = s.num sb k ∧ Owns sb s' (s.num sb k) ∧
      a ∈ s'.used sb ∧ a ∉ held (s.num sb k) := by
  have hfresh := h.owned.notMem_held ha.fresh
  refine ⟨?_, ⟨?_, ha.metaMarked⟩, ?_, hfresh⟩
  · apply num_of_blocks ha.inode ha.ino
    intro x hx
    apply ha.block _ (h.dataStart_le hx)
    intro he
    exact hfresh (UInt32.toNat_inj.mp he ▸ mem_held hx)
  · rw [ha.used]
    exact h.owned.mark a
  · rw [ha.used]
    exact Set.mem_insert ..

/-! ## `bmap` -/

/-- **An entry of `addrs`**, filled if it is zero. -/
theorem bmapSlot_spec (ht : (s.inode k).type ≠ 0) (h : Owns sb s (s.num sb k))
    (i : Fin (ndirect + 1)) :
    Returns (bmapSlot sb k i) (fun a s' l => InodeMoved sb k s s' l ∧
      (a ≠ 0 → (s'.inode k).addrs i = a)) s := by
  apply (bmapSlot_of_balloc k i (balloc_spec h.metaMarked)).mono
  rintro a s' l (⟨rfl, -, rfl, rfl⟩ | ⟨h0, s₁, ⟨rfl, rfl, rfl⟩ | ⟨ha, hl⟩, rfl⟩)
  · exact ⟨.refl h, fun _ => rfl⟩
  · exact ⟨.refl h, fun hne => absurd rfl hne⟩
  · rw [if_neg ha.ne_zero]
    obtain ⟨hnum, howns, hused, hfresh⟩ := ha.owns h
    have ht₁ : (s₁.inode k).type ≠ 0 := by
      rw [ha.inode]
      exact ht
    have h0₁ : (s₁.inode k).addrs i = 0 := by
      rw [ha.inode]
      exact h0
    have hset : (s₁.setAddr k i a).num sb k =
        update (s.num sb k) (.slot (s.inode k).inum i) a := by
      have := @num_setAddr sb k s₁ ht₁ i a s₁.entry
        (fun hi j => blockAt_entry_of_none (by rw [cur_self, ← hi]; exact h0₁) j)
        (fun _ _ j _ => ha.zero j)
      rw [ha.inode] at this
      rw [← hnum]
      exact this
    refine ⟨⟨(InodeFrame.of_inode ha.inode ha.ino).trans (setAddr_frame i a), ⟨?_, ?_⟩, ?_⟩, ?_⟩
    · rw [hset]
      exact howns.owned.store ha.data hused hfresh
    · exact ha.metaMarked
    · rw [hl, hset, held_update_add ((num_slot ht i).trans h0) ha.ne_zero]
      exact ⟨hfresh, rfl⟩
    · intro _
      rw [setAddr_inode_self]
      exact update_self ..

/-- **An entry of the indirect block**, filled if it is zero. -/
theorem bmapEntry_spec (ht : (s.inode k).type ≠ 0) (h : Owns sb s (s.num sb k)) {addr : UInt32}
    (ha : (s.inode k).addrs (Fin.last ndirect) = addr) (hne : addr ≠ 0) {j : Nat} (hj : j < nindirect) :
    Returns (bmapEntry sb addr j) (fun a s' l => InodeMoved sb k s s' l ∧
      s'.inode = s.inode ∧ (a ≠ 0 → s'.entry addr j = a)) s := by
  subst ha
  have hind : s.num sb k (.indirect (s.inode k).inum) = (s.inode k).addrs (Fin.last ndirect) :=
    num_slot ht _
  apply (bmapEntry_of_balloc _ j (balloc_spec h.metaMarked)).mono
  rintro a s' l (⟨rfl, -, rfl, rfl⟩ | ⟨h0, s₁, l₁, ⟨rfl, rfl, rfl⟩ | ⟨hal, hl⟩, rfl, rfl⟩)
  · exact ⟨.refl h, rfl, fun _ => rfl⟩
  · exact ⟨.refl h, rfl, fun hn => absurd rfl hn⟩
  · rw [if_neg hal.ne_zero, if_neg hal.ne_zero]
    obtain ⟨hnum, howns, hused, hfresh⟩ := hal.owns h
    generalize hA : (s.inode k).addrs (Fin.last ndirect) = addr at *
    have hge : sb.dataStart ≤ addr.toNat := by
      rw [← hind]
      exact h.dataStart_le (by rw [hind]; exact hne)
    have hle := sb.bmapstart_le_dataStart
    have hino : (s₁.setEntry addr j a).ino sb = s.ino sb :=
      (setBlock_ino (by omega)).trans hal.ino
    have hcur : (s₁.setEntry addr j a).cur sb k = s.cur sb k :=
      cur_congr (congrFun hal.inode k) hino
    have hcur₁ : s₁.cur sb k = s.cur sb k := cur_congr (by rw [hal.inode]) hal.ino
    have hself : (s₁.setEntry addr j a).entry addr j = a := by
      rw [setEntry_entry hj, if_pos ⟨rfl, rfl⟩]
    have hset : (s₁.setEntry addr j a).num sb k =
        update (s.num sb k) (.entry (s.inode k).inum ⟨j, hj⟩) a := by
      rw [← hnum]
      unfold Files.num
      rw [hcur, hcur₁]
      have hlast : (s.cur sb k (s.inode k).inum).addrs (Fin.last ndirect) = addr := by
        rw [cur_self]
        exact hA
      apply blockAt_setEntry (cur_type ht)
      · rw [hlast]
        exact hne
      · rw [hlast]
        exact hself
      · intro b j' _ hn
        rw [hlast] at hn
        rw [setEntry_entry hj, if_neg hn]
      · intro x hx
        rw [hlast] at hx
        rw [blockAt_slot_ent s.entry] at hx
        exact h.indirect_unique (by rw [hind]; exact hne) (hx.trans hind.symm)
    have hzero : s.num sb k (.entry (s.inode k).inum ⟨j, hj⟩) = 0 := by
      rw [num_entry ht (by rw [hA]; exact hne), hA]
      exact h0
    refine ⟨⟨.of_inode hal.inode hino, ⟨?_, ?_⟩, ?_⟩, hal.inode, fun _ => hself⟩
    · rw [hset]
      unfold Files.setEntry
      rw [setBlock_used (.inr hge)]
      exact howns.owned.store hal.data hused hfresh
    · exact metaMarked_setBlock hal.metaMarked (.inr hge)
    · rw [hset, held_update_add hzero hal.ne_zero, changes_append, hl]
      exact ⟨hfresh, rfl⟩

/-- The places of data blocks. -/
def Place.IsData : Place → Prop
  | .slot _ i => i ≠ Fin.last ndirect
  | .entry _ _ => True

/-- **`bmap`** below the maximal size returns; a block that it finds is a data block of the inode. -/
theorem bmap_spec (ht : (s.inode k).type ≠ 0) (h : Owns sb s (s.num sb k)) {bn : Nat}
    (hbn : bn < maxfile) :
    Returns (bmap sb k bn) (fun a s' l => InodeMoved sb k s s' l ∧
      (a ≠ 0 → ∃ p, Place.IsData p ∧ s'.num sb k p = a)) s := by
  unfold bmap
  by_cases hd : bn < ndirect
  · rw [dif_pos hd]
    apply (bmapSlot_spec ht h _).mono
    rintro a s' l ⟨hm, ha⟩
    refine ⟨hm, fun hne => ⟨.slot (s'.inode k).inum ⟨bn, Nat.lt_succ_of_lt hd⟩, ?_, ?_⟩⟩
    · intro hlast
      have := congrArg Fin.val hlast
      simp only [Fin.val_last] at this
      omega
    · rw [num_slot (by rw [hm.frame.type]; exact ht)]
      exact ha hne
  · have hj : bn - ndirect < nindirect := by
      unfold maxfile at hbn
      omega
    rw [dif_neg hd, if_pos hj]
    apply Returns.seq
    apply (bmapSlot_spec ht h _).mono
    rintro addr s₁ l ⟨hm, ha⟩
    by_cases h0 : addr = 0
    · rw [if_pos h0]
      refine .ret ⟨?_, fun hne => absurd rfl hne⟩
      rw [append_nil]
      exact hm
    · rw [if_neg h0]
      have ht₁ : (s₁.inode k).type ≠ 0 := by
        rw [hm.frame.type]
        exact ht
      apply (bmapEntry_spec ht₁ hm.owns (ha h0) h0 hj).mono
      rintro a s₂ l₂ ⟨hm₂, hinode, ha₂⟩
      refine ⟨hm.trans hm₂, fun hne => ⟨.entry (s₂.inode k).inum ⟨bn - ndirect, hj⟩, trivial, ?_⟩⟩
      have hlast : (s₂.inode k).addrs (Fin.last ndirect) = addr := by
        rw [hinode]
        exact ha h0
      rw [num_entry (by rw [hinode]; exact ht₁) (by rw [hlast]; exact h0), hlast]
      exact ha₂ hne

/-! ## `writei` -/

/-- New contents of a data block of an inode. -/
theorem Owns.setData (h : Owns sb s (s.num sb k)) {p : Place} (hp : p.IsData)
    (hne : s.num sb k p ≠ 0) (data : Block) (l : List FilesEvent) (hl : changes l = []) :
    InodeMoved sb k s (s.setBlock (s.num sb k p).toNat data) l := by
  have hge := h.dataStart_le hne
  have hle := sb.bmapstart_le_dataStart
  have hino : (s.setBlock (s.num sb k p).toNat data).ino sb = s.ino sb :=
    setBlock_ino (by omega)
  have hnum : (s.setBlock (s.num sb k p).toNat data).num sb k = s.num sb k := by
    refine num_of_blocks rfl hino ?_
    intro x hx
    apply setBlock_block_of_ne
    intro he
    -- the block is in one place only
    have hpx := h.owned.unique hx (UInt32.toNat_inj.mp he)
    rw [← hpx] at hp
    exact hp rfl
  refine ⟨.of_inode rfl hino, ⟨?_, ?_⟩, ?_⟩
  · rw [hnum, setBlock_used (.inr hge)]
    exact h.owned
  · exact metaMarked_setBlock h.metaMarked (.inr hge)
  · rw [hl, hnum]
    rfl

/-- **The loop of `writei`**, whatever block it stops at. -/
theorem writeLoop_spec (src : Nat → Option UInt8) (n : Nat) : ∀ (m tot off : Nat) {s : Files},
    n - tot = m → (s.inode k).type ≠ 0 → Owns sb s (s.num sb k) →
    off + (n - tot) ≤ maxfile * bsize →
    Returns (writeLoop sb k src n tot off) (fun _ s' l => InodeMoved sb k s s' l) s := by
  intro m
  induction m using Nat.strongRecOn with
  | _ m ih =>
    intro tot off s hm ht h hoff
    rw [writeLoop]
    by_cases htot : tot < n
    · rw [dif_pos htot]
      have hbn : off / bsize < maxfile := (Nat.div_lt_iff_lt_mul (by decide)).mpr (by omega)
      apply Returns.seq
      apply (bmap_spec ht h hbn).mono
      rintro a s₁ l₁ ⟨hm₁, ha⟩
      by_cases h0 : a = 0
      · rw [if_pos h0]
        apply Returns.ret
        rw [append_nil]
        exact hm₁
      · rw [if_neg h0]
        obtain ⟨p, hp, hpa⟩ := ha h0
        have hset := fun data l hl => hm₁.owns.setData hp (by rw [hpa]; exact h0) data l hl
        rw [hpa] at hset
        apply Returns.seq_get
        dsimp only
        split
        · apply Returns.seq_update
          apply Returns.ret
          exact hm₁.trans (hset _ [] rfl)
        · apply Returns.seq
          refine .of_ok (logBlock_run _ _ s₁) ?_
          have hm₂ := hm₁.trans (hset (copyIn (s₁.block a.toNat) (off % bsize) src tot
            (min (n - tot) (bsize - off % bsize))) [.logWrite a.toNat] rfl)
          have hmod : off % bsize < bsize := Nat.mod_lt _ (by decide)
          have hpos : 0 < min (n - tot) (bsize - off % bsize) := by omega
          have hmin : min (n - tot) (bsize - off % bsize) ≤ n - tot := Nat.min_le_left ..
          generalize min (n - tot) (bsize - off % bsize) = c at hm₂ hpos hmin ⊢
          apply (ih (n - (tot + c)) (by omega) (tot + c) (off + c) rfl
            (by rw [hm₂.frame.type]; exact ht) hm₂.owns (by omega)).mono
          intro _ s₃ l₃ hm₃
          rw [← append_assoc]
          exact hm₂.trans hm₃
    · rw [dif_neg htot]
      exact .ret (.refl h)

/-! ## `iupdate` -/

/-- **`iupdate`** makes the inodes on disk those that counted. -/
structure Written (sb : Superblock) (k : InodeId) (s s' : Files) : Prop where
  inode : s'.inode = s.inode
  ino : s'.ino sb = s.cur sb k
  used : s'.used sb = s.used sb
  metaMarked : MetaMarked sb s → MetaMarked sb s'
  block : ∀ x, sb.dataStart ≤ x → s'.block x = s.block x

/-- `iupdate` brings the inode to the disk. -/
theorem iupdate_spec (hlt : (s.inode k).inum < sb.ninodes) :
    Returns (iupdate sb k) (fun _ s' l => Written sb k s s' ∧ changes l = []) s := by
  have hib := sb.iblock_lt hlt
  have hle := sb.bmapstart_le_dataStart
  unfold iupdate
  apply Returns.seq_get
  refine .of_ok (logBlock_run _ _ s) ⟨⟨rfl, ?_, ?_, ?_, ?_⟩, rfl⟩
  · exact ino_toBlock hlt _
  · exact setBlock_used (.inl hib)
  · intro hm b hb
    have := dataStart_le_size sb
    rw [marked_setBlock (by omega) (.inl hib)]
    exact hm b hb
  · intro x hx
    exact setBlock_block_of_ne (by omega)

/-- After `iupdate` the block numbers on disk are those that counted. -/
theorem Written.num (hw : Written sb k s s') (h : Owns sb s (s.num sb k)) :
    blockAt (s'.ino sb) s'.entry = s.num sb k ∧ Owns sb s' (s.num sb k) := by
  refine ⟨?_, ⟨by rw [hw.used]; exact h.owned, hw.metaMarked h.metaMarked⟩⟩
  unfold Files.num
  rw [hw.ino]
  symm
  apply blockAt_congr
  intro x j hx _
  exact (entry_congr (hw.block _ (h.dataStart_le (p := .indirect x) hx)) j).symm

/-! ## `itrunc` -/

/-- What taking back the block of an entry of `addrs` does. -/
structure SlotFreed (sb : Superblock) (k : InodeId) (i : Fin (ndirect + 1)) (s s' : Files) : Prop where
  frame : InodeFrame sb k s s'
  inode : s'.inode k = { s.inode k with addrs := update (s.inode k).addrs i 0 }
  block : ∀ x, sb.dataStart ≤ x → s'.block x = s.block x

/-- `bfree` of the block of an entry of `addrs`, which is zero then; `ent` says which blocks are still
in indirect blocks. -/
theorem bfree_slot (ht : (s.inode k).type ≠ 0) {ent : UInt32 → Nat → UInt32}
    (h : Owns sb s (blockAt (s.cur sb k) ent)) {i : Fin (ndirect + 1)}
    (hne : (s.inode k).addrs i ≠ 0)
    (hempty : i = Fin.last ndirect → ∀ j, blockAt (s.cur sb k) ent (.entry (s.inode k).inum j) = 0) :
    Returns (bfree sb ((s.inode k).addrs i) >>= fun _ => modify fun s => s.setAddr k i 0)
      (fun _ s' l => SlotFreed sb k i s s' ∧ Owns sb s' (blockAt (s'.cur sb k) ent) ∧
        blockAt (s'.cur sb k) ent =
          update (blockAt (s.cur sb k) ent) (.slot (s.inode k).inum i) 0 ∧
        Traffic (held (blockAt (s.cur sb k) ent)) (changes l) (held (blockAt (s'.cur sb k) ent))) s := by
  have hnum : blockAt (s.cur sb k) ent (.slot (s.inode k).inum i) = (s.inode k).addrs i := by
    rw [blockAt_slot (cur_type ht), cur_self]
  have hne' : blockAt (s.cur sb k) ent (.slot (s.inode k).inum i) ≠ 0 := by
    rw [hnum]
    exact hne
  have hdata := h.data hne'
  have hused := h.owned.used hne'
  rw [hnum] at hdata hused
  apply Returns.seq
  apply (bfree_spec h.metaMarked hdata hused).mono
  rintro ⟨⟩ s₁ l₁ ⟨hf, hl₁⟩
  apply Returns.update
  rw [append_nil]
  have hin : s₁.inode k = s.inode k := by rw [hf.inode]
  have hcur : s₁.cur sb k = s.cur sb k := cur_congr hin hf.ino
  have hset := @num_setAddr sb k s₁ (by rw [hin]; exact ht) i 0 ent
    (by rw [hcur, hin]; exact hempty) (fun _ hz => absurd rfl hz)
  rw [hcur, hin] at hset
  refine ⟨⟨(InodeFrame.of_inode hf.inode hf.ino).trans (setAddr_frame i 0), ?_, ?_⟩, ⟨?_, ?_⟩, hset, ?_⟩
  · rw [setAddr_inode_self, hin]
  · exact fun x hx => hf.block x hx
  · rw [hset]
    show Owned _ (s₁.used sb) _
    rw [hf.used, ← hnum]
    exact h.owned.release hne'
  · exact hf.metaMarked
  · rw [hset, h.owned.held_release hne', hl₁, hnum]
    refine ⟨?_, rfl⟩
    rw [← hnum]
    exact mem_held hne'

/-- **`itrunc` on a direct block.** -/
theorem freeSlot_spec (ht : (s.inode k).type ≠ 0) (h : Owns sb s (s.num sb k)) (i : Fin ndirect) :
    Returns (freeSlot sb k i.castSucc) (fun _ s' l => InodeMoved sb k s s' l ∧
      (s'.inode k).addrs = update (s.inode k).addrs i.castSucc 0) s := by
  unfold freeSlot
  apply Returns.seq_get
  dsimp only
  by_cases h0 : (s.inode k).addrs i.castSucc = 0
  · rw [if_neg (not_not_intro h0)]
    refine .ret ⟨.refl h, ?_⟩
    rw [← h0, update_eq_self]
  · rw [if_pos h0]
    have hdirect : i.castSucc ≠ Fin.last ndirect := Fin.castSucc_ne_last i
    apply (bfree_slot ht h h0 fun hi => absurd hi hdirect).mono
    rintro ⟨⟩ s₁ l ⟨hf, howns, -, htr⟩
    have hnum : blockAt (s₁.cur sb k) s.entry = s₁.num sb k := by
      apply blockAt_congr
      intro x j hx _
      exact (entry_congr (hf.block _ (howns.dataStart_le (p := .indirect x) hx)) j).symm
    rw [hnum] at howns htr
    exact ⟨⟨hf.frame, howns, htr⟩, by rw [hf.inode]⟩

/-- The entries of an indirect block, without those that were taken back. -/
def entryFrom (s : Files) (addr : UInt32) (t : Nat) (b : UInt32) (j : Nat) : UInt32 :=
  if b = addr ∧ j < t then 0 else s.entry b j

theorem entryFrom_zero (s : Files) (addr : UInt32) : entryFrom s addr 0 = s.entry := by
  funext b j
  exact if_neg fun h => absurd h.2 (Nat.not_lt_zero j)

theorem entryFrom_succ_of_ne (s : Files) (addr : UInt32) {t j : Nat} {b : UInt32}
    (h : ¬ (b = addr ∧ j = t)) : entryFrom s addr (t + 1) b j = entryFrom s addr t b j := by
  unfold entryFrom
  by_cases hb : b = addr
  · have hj : j ≠ t := fun hj => h ⟨hb, hj⟩
    simp only [hb, true_and]
    split
    · rw [if_pos (by omega)]
    · rw [if_neg (by omega)]
  · simp [hb]

theorem entryFrom_succ_self (s : Files) (addr : UInt32) (t : Nat) :
    entryFrom s addr (t + 1) addr t = 0 := if_pos ⟨rfl, Nat.lt_succ_self t⟩

theorem entryFrom_self (s : Files) (addr : UInt32) (t : Nat) :
    entryFrom s addr t addr t = s.entry addr t := if_neg fun h => absurd h.2 (Nat.lt_irrefl t)

/-- The loop of `itrunc` over the indirect block, at its entry `t`. -/
structure Emptying (sb : Superblock) (k : InodeId) (addr : UInt32) (s₀ : Files) (t : Nat) (s : Files)
    (l : List FilesEvent) : Prop where
  inode : s.inode = s₀.inode
  ino : s.ino sb = s₀.ino sb
  block : ∀ x, sb.dataStart ≤ x → s.block x = s₀.block x
  owns : Owns sb s (blockAt (s₀.cur sb k) (entryFrom s₀ addr t))
  traffic : Traffic (held (s₀.num sb k)) (changes l)
    (held (blockAt (s₀.cur sb k) (entryFrom s₀ addr t)))

/-- One turn of `itrunc` over the indirect block. -/
theorem freeEntry_spec {s₀ : Files} (ht : (s₀.inode k).type ≠ 0) {addr : UInt32}
    (ha : (s₀.inode k).addrs (Fin.last ndirect) = addr) (hne : addr ≠ 0) {t : Nat}
    (hlt : t < nindirect) (h : Emptying sb k addr s₀ t s l) :
    Returns (freeEntry sb addr t) (fun _ s' l' => Emptying sb k addr s₀ (t + 1) s' (l ++ l')) s := by
  have hlast : (s₀.cur sb k (s₀.inode k).inum).addrs (Fin.last ndirect) = addr := by
    rw [cur_self]
    exact ha
  have hind : ∀ ent, blockAt (s₀.cur sb k) ent (.indirect (s₀.inode k).inum) = addr := by
    intro ent
    rw [blockAt_slot (cur_type ht), hlast]
  have hge : sb.dataStart ≤ addr.toNat := by
    rw [← hind (entryFrom s₀ addr t)]
    exact h.owns.dataStart_le (by rw [hind]; exact hne)
  have hentry : s.entry addr t = s₀.entry addr t := entry_congr (h.block _ hge) t
  have hset : ∀ v, entryFrom s₀ addr (t + 1) addr t = v → blockAt (s₀.cur sb k)
      (entryFrom s₀ addr (t + 1)) = update (blockAt (s₀.cur sb k) (entryFrom s₀ addr t))
        (.entry (s₀.inode k).inum ⟨t, hlt⟩) v := by
    intro v hv
    apply blockAt_setEntry (cur_type ht)
    · rw [hlast]
      exact hne
    · rw [hlast]
      exact hv
    · intro b j _ hn
      rw [hlast] at hn
      exact entryFrom_succ_of_ne s₀ addr hn
    · intro x hx
      rw [hlast] at hx
      exact h.owns.indirect_unique (by rw [hind]; exact hne) (hx.trans (hind _).symm)
  have hset0 := hset 0 (entryFrom_succ_self s₀ addr t)
  have hplace : blockAt (s₀.cur sb k) (entryFrom s₀ addr t) (.entry (s₀.inode k).inum ⟨t, hlt⟩) =
      s₀.entry addr t := by
    rw [blockAt_entry (cur_type ht) (by rw [hlast]; exact hne), hlast]
    exact entryFrom_self s₀ addr t
  unfold freeEntry
  apply Returns.seq_get
  show Returns (if s.entry addr t ≠ 0 then bfree sb (s.entry addr t) else pure PUnit.unit) _ s
  rw [hentry]
  by_cases h0 : s₀.entry addr t = 0
  · rw [if_neg (not_not_intro h0)]
    apply Returns.ret
    rw [append_nil]
    have hsame : blockAt (s₀.cur sb k) (entryFrom s₀ addr (t + 1)) =
        blockAt (s₀.cur sb k) (entryFrom s₀ addr t) := by
      rw [hset0, ← h0, ← hplace, update_eq_self]
    exact ⟨h.inode, h.ino, h.block, by rw [hsame]; exact h.owns, by rw [hsame]; exact h.traffic⟩
  · rw [if_pos h0]
    have hne' : blockAt (s₀.cur sb k) (entryFrom s₀ addr t)
        (.entry (s₀.inode k).inum ⟨t, hlt⟩) ≠ 0 := by
      rw [hplace]
      exact h0
    have hdata := h.owns.data hne'
    have hused := h.owns.owned.used hne'
    rw [hplace] at hdata hused
    apply (bfree_spec h.owns.metaMarked hdata hused).mono
    rintro ⟨⟩ s₁ l₁ ⟨hf, hl₁⟩
    refine ⟨hf.inode.trans h.inode, hf.ino.trans h.ino, ?_, ⟨?_, hf.metaMarked⟩, ?_⟩
    · intro x hx
      rw [hf.block x hx, h.block x hx]
    · rw [hset0, hf.used, ← hplace]
      exact h.owns.owned.release hne'
    · rw [changes_append, hl₁]
      refine h.traffic.append ⟨?_, ?_⟩
      · rw [← hplace]
        exact mem_held hne'
      · rw [hset0, h.owns.owned.held_release hne', hplace]
        rfl

/-- **`itrunc` on the indirect block.** -/
theorem freeIndirect_spec (ht : (s.inode k).type ≠ 0) (h : Owns sb s (s.num sb k)) :
    Returns (freeIndirect sb k) (fun _ s' l => InodeMoved sb k s s' l ∧
      (s'.inode k).addrs = update (s.inode k).addrs (Fin.last ndirect) 0) s := by
  unfold freeIndirect
  apply Returns.seq_get
  dsimp only
  by_cases h0 : (s.inode k).addrs (Fin.last ndirect) = 0
  · rw [if_neg (not_not_intro h0)]
    refine .ret ⟨.refl h, ?_⟩
    rw [← h0, update_eq_self]
  · rw [if_pos h0]
    have hstart : Emptying sb k ((s.inode k).addrs (Fin.last ndirect)) s 0 s [] := by
      refine ⟨rfl, rfl, fun _ _ => rfl, ?_, ?_⟩
      · rw [entryFrom_zero]
        exact h
      · rw [entryFrom_zero]
        rfl
    have hloop : Returns ((List.range nindirect).forM
        (freeEntry sb ((s.inode k).addrs (Fin.last ndirect))))
        (fun _ s' l => Emptying sb k ((s.inode k).addrs (Fin.last ndirect)) s nindirect s' l) s := by
      rw [range_eq_range']
      have hrule := Returns.forM (f := freeEntry sb ((s.inode k).addrs (Fin.last ndirect)))
        (I := fun l s' tr => ∃ t, l = List.range' t l.length ∧ t + l.length = nindirect ∧
          Emptying sb k ((s.inode k).addrs (Fin.last ndirect)) s t s' tr) ?_
        (l := List.range' 0 nindirect) (s := s) (t := []) ⟨0, by simp, by simp, hstart⟩
      · apply hrule.mono
        rintro ⟨⟩ s' tr ⟨t, -, hlen, he⟩
        rw [length_nil, Nat.add_zero] at hlen
        subst hlen
        exact he
      · rintro j l s' tr ⟨t, hl, hlen, he⟩
        rw [length_cons] at hl hlen
        rw [List.range'_succ] at hl
        injection hl with hj hl
        subst hj
        apply (freeEntry_spec ht rfl h0 (by omega) he).mono
        intro _ s'' tr' he'
        exact ⟨j + 1, hl, by omega, he'⟩
    apply Returns.seq
    apply hloop.mono
    rintro ⟨⟩ s₁ l₁ he
    have hin : s₁.inode k = s.inode k := by rw [he.inode]
    have hcur : s₁.cur sb k = s.cur sb k := cur_congr hin he.ino
    have howns := he.owns
    rw [← hcur] at howns
    have hempty : ∀ j, blockAt (s₁.cur sb k)
        (entryFrom s ((s.inode k).addrs (Fin.last ndirect)) nindirect)
        (.entry (s₁.inode k).inum j) = 0 := by
      intro j
      rw [hcur, hin, blockAt_entry (cur_type ht) (by rw [cur_self]; exact h0),
        cur_self]
      exact if_pos ⟨rfl, j.isLt⟩
    have hfree := bfree_slot (i := Fin.last ndirect) (by rw [hin]; exact ht) howns
      (by rw [hin]; exact h0) fun _ => hempty
    rw [hin] at hfree
    apply hfree.mono
    rintro ⟨⟩ s₂ l₂ ⟨hf, howns₂, hset, htr⟩
    have hnum : blockAt (s₂.cur sb k)
        (entryFrom s ((s.inode k).addrs (Fin.last ndirect)) nindirect) = s₂.num sb k := by
      apply blockAt_congr
      intro x j hx _
      have hge := howns₂.dataStart_le (p := .indirect x) hx
      rw [hset] at hx hge ⊢
      -- the indirect block that was taken back is in no place
      have hxi : Place.indirect x ≠ .indirect (s.inode k).inum := by
        intro he
        rw [he, update_self] at hx
        exact hx rfl
      rw [update_of_ne hxi] at hx hge ⊢
      rw [entry_congr (s := s) ((hf.block _ hge).trans (he.block _ hge))]
      apply if_neg
      rintro ⟨heq, -⟩
      have hlast : blockAt (s₁.cur sb k) (entryFrom s ((s.inode k).addrs (Fin.last ndirect)) nindirect)
          (.indirect (s.inode k).inum) = (s.inode k).addrs (Fin.last ndirect) := by
        rw [hcur, blockAt_slot (cur_type ht), cur_self]
      exact hxi (howns.owned.unique hx (heq.trans hlast.symm))
    rw [hnum] at howns₂ htr
    refine ⟨⟨(InodeFrame.of_inode he.inode he.ino).trans hf.frame, howns₂, ?_⟩, ?_⟩
    · rw [changes_append]
      have := he.traffic
      rw [← hcur] at this
      exact this.append htr
    · rw [hf.inode, hin]

/-- Other fields of an inode than its type and its block numbers. -/
theorem Owns.setFields (h : Owns sb s (s.num sb k)) (ip : Inode) (hinum : ip.inum = (s.inode k).inum)
    (href : ip.ref = (s.inode k).ref) (hvalid : ip.valid = (s.inode k).valid)
    (htype : ip.type = (s.inode k).type) (haddrs : ip.addrs = (s.inode k).addrs) :
    InodeMoved sb k s (s.setInode k ip) [] := by
  have hself : (s.setInode k ip).inode k = ip := update_self ..
  have hcur : (s.setInode k ip).cur sb k =
      update (s.cur sb k) (s.inode k).inum ip.toDinode := by
    unfold Files.cur
    rw [hself, hinum, update_idem]
    rfl
  have hnum : (s.setInode k ip).num sb k = s.num sb k := by
    unfold Files.num
    rw [hcur]
    apply blockAt_update_same
    · rw [cur_self, htype]
    · rw [cur_self, haddrs]
  refine ⟨⟨rfl, fun l hl => update_of_ne hl .., by rw [hself, hinum], by rw [hself, href],
    by rw [hself, hvalid], by rw [hself, htype]⟩, ⟨?_, h.metaMarked⟩, ?_⟩
  · rw [hnum]
    exact h.owned
  · rw [hnum]
    rfl

/-- **A whole operation** on the inode `k`: in memory and on disk it is the same again. -/
structure Completed (sb : Superblock) (k : InodeId) (s s' : Files) (l : List FilesEvent) : Prop where
  other : ∀ l, l ≠ k → s'.inode l = s.inode l
  inum : (s'.inode k).inum = (s.inode k).inum
  ref : (s'.inode k).ref = (s.inode k).ref
  valid : (s'.inode k).valid = (s.inode k).valid
  type : (s'.inode k).type = (s.inode k).type
  ino : s'.ino sb = update (s.ino sb) (s.inode k).inum (s'.inode k).toDinode
  owns : Owns sb s' (blockAt (s'.ino sb) s'.entry)
  traffic : Traffic (held (s.num sb k)) (changes l) (held (blockAt (s'.ino sb) s'.entry))

/-- An operation ends with `iupdate`. -/
theorem InodeMoved.iupdate {s₁ : Files} (h : InodeMoved sb k s s₁ l) (hlt : (s.inode k).inum < sb.ninodes) :
    Returns (iupdate sb k)
      (fun _ s' l' => Completed sb k s s' (l ++ l') ∧ s'.inode = s₁.inode) s₁ := by
  apply (iupdate_spec (by rw [h.frame.inum]; exact hlt)).mono
  rintro ⟨⟩ s' l' ⟨hw, hl'⟩
  obtain ⟨hnum, howns⟩ := hw.num h.owns
  refine ⟨⟨?_, ?_, ?_, ?_, ?_, ?_, ?_, ?_⟩, hw.inode⟩
  · intro t ht
    rw [hw.inode]
    exact h.frame.other t ht
  · rw [hw.inode]
    exact h.frame.inum
  · rw [hw.inode]
    exact h.frame.ref
  · rw [hw.inode]
    exact h.frame.valid
  · rw [hw.inode]
    exact h.frame.type
  · rw [hw.ino, hw.inode]
    unfold Files.cur
    rw [h.frame.ino, h.frame.inum]
  · rw [hnum]
    exact howns
  · rw [changes_append, hl', append_nil, hnum]
    exact h.traffic

/-- **`itrunc`** returns, and leaves no block number. -/
theorem itrunc_spec (ht : (s.inode k).type ≠ 0) (h : Owns sb s (s.num sb k))
    (hlt : (s.inode k).inum < sb.ninodes) :
    Returns (itrunc sb k) (fun _ s' l => Completed sb k s s' l ∧ ∀ i, (s'.inode k).addrs i = 0) s := by
  have hloop := Returns.forM (f := fun i : Fin ndirect => freeSlot sb k i.castSucc)
    (I := fun l s' tr => InodeMoved sb k s s' tr ∧
      ∀ i, i ∉ l → (s'.inode k).addrs i.castSucc = 0) ?_ (l := List.finRange ndirect) (s := s) (t := [])
    ⟨.refl h, fun i hi => absurd (mem_finRange i) hi⟩
  · unfold itrunc
    apply Returns.seq
    apply hloop.mono
    rintro ⟨⟩ s₁ l₁ ⟨hm₁, hdirect⟩
    apply Returns.seq
    apply (freeIndirect_spec (by rw [hm₁.frame.type]; exact ht) hm₁.owns).mono
    rintro ⟨⟩ s₂ l₂ ⟨hm₂, haddrs⟩
    have hm := hm₁.trans hm₂
    rw [nil_append] at hm
    apply Returns.seq_update
    have hm₃ := hm.trans (hm.owns.setFields { s₂.inode k with size := 0 } rfl rfl rfl rfl rfl)
    apply (hm₃.iupdate hlt).mono
    rintro ⟨⟩ s' l' ⟨hc, hinode⟩
    rw [append_nil, append_assoc] at hc
    refine ⟨hc, fun i => ?_⟩
    have hip : (s'.inode k).addrs = (s₂.inode k).addrs := by
      rw [hinode]
      unfold Files.setInode
      dsimp only
      rw [update_self]
    rw [hip, haddrs]
    cases i using Fin.lastCases with
    | last => exact update_self ..
    | cast i =>
      rw [update_of_ne (Fin.castSucc_ne_last i)]
      exact hdirect i not_mem_nil
  · rintro i l s' tr ⟨hm, hdone⟩
    apply (freeSlot_spec (by rw [hm.frame.type]; exact ht) hm.owns i).mono
    rintro ⟨⟩ s'' tr' ⟨hm', haddrs⟩
    refine ⟨hm.trans hm', fun i' hi' => ?_⟩
    rw [haddrs]
    by_cases hii : i' = i
    · subst hii
      exact update_self ..
    · rw [update_of_ne fun he => hii (Fin.castSucc_inj.mp he)]
      exact hdone i' (by simp [hii, hi'])

/-- **`writei`** returns, for every buffer and on a full disk. -/
theorem writei_spec (ht : (s.inode k).type ≠ 0) (h : Owns sb s (s.num sb k))
    (hlt : (s.inode k).inum < sb.ninodes) (src : Nat → Option UInt8) (off n : UInt32) :
    Returns (writei sb k src off n)
      (fun _ s' l => (s' = s ∧ l = []) ∨ Completed sb k s s' l) s := by
  unfold writei
  apply Returns.seq_get
  dsimp only
  split
  · exact .ret (.inl ⟨rfl, rfl⟩)
  · next hoff =>
      split
      · exact .ret (.inl ⟨rfl, rfl⟩)
      · next hmax =>
          have hsum : (off + n).toNat = off.toNat + n.toNat := by
            have hwrap : ¬ off + n < off := fun hw => hoff (.inr hw)
            rw [UInt32.lt_iff_toNat_lt, UInt32.toNat_add] at hwrap
            rw [UInt32.toNat_add]
            have := off.toNat_lt
            have := n.toNat_lt
            omega
          apply Returns.seq
          apply (writeLoop_spec src n.toNat _ 0 off.toNat rfl ht h (by omega)).mono
          rintro ⟨tot, off'⟩ s₁ l₁ hm
          dsimp only
          split
          · apply Returns.seq_update
            have hm₂ := hm.trans (hm.owns.setFields
              { s₁.inode k with size := UInt32.ofNat off' } rfl rfl rfl rfl rfl)
            rw [append_nil] at hm₂
            apply Returns.seq
            apply (hm₂.iupdate hlt).mono
            rintro ⟨⟩ s' l' ⟨hc, -⟩
            apply Returns.ret
            rw [append_nil]
            exact .inr hc
          · apply Returns.seq
            apply (hm.iupdate hlt).mono
            rintro ⟨⟩ s' l' ⟨hc, -⟩
            apply Returns.ret
            rw [append_nil]
            exact .inr hc

end Xv6
