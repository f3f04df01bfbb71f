import Xv6.Fs.Owner
import Xv6.Lib.Transition

/-!
# Sequences of operations on inodes

`ialloc`, `writei`, `itrunc` and `iput`, with the operations on the inode table that bring an inode
into memory and the updates of its other fields, in any order. An entry of the table that was read
in is the same as the inode on disk, and no inode has two entries.
-/

namespace Xv6

open TraceM Ownership Transition Function Files

/-- The block numbers on disk. -/
def Files.onDisk (sb : Superblock) (s : Files) : Place → UInt32 := blockAt (s.ino sb) s.entry

/-- **The inode table**: what was read in is as on disk. -/
structure Table (sb : Superblock) (s : Files) : Prop where
  inum_lt : ∀ {k}, 0 < (s.inode k).ref → (s.inode k).inum < sb.ninodes
  current : ∀ {k}, 0 < (s.inode k).ref → (s.inode k).valid = true →
    (s.inode k).type ≠ 0 ∧ s.ino sb (s.inode k).inum = (s.inode k).toDinode
  inj : ∀ {k t}, 0 < (s.inode k).ref → 0 < (s.inode t).ref → (s.inode k).inum = (s.inode t).inum → k = t

structure Sound (sb : Superblock) (s : Files) : Prop where
  owns : Owns sb s (s.onDisk sb)
  table : Table sb s

variable {sb : Superblock} {k : InodeId} {s s' : Files} {l : List FilesEvent}

/-- An entry that is read in counts as the inode on disk. -/
theorem Table.num (h : Table sb s) (hr : 0 < (s.inode k).ref) (hv : (s.inode k).valid = true) :
    s.num sb k = s.onDisk sb := by
  unfold Files.num Files.cur Files.onDisk
  rw [← (h.current hr hv).2, update_eq_self]

/-- A whole operation on an entry that is read in. -/
theorem Completed.sound (hc : Completed sb k s s' l) (h : Sound sb s) (hr : 0 < (s.inode k).ref)
    (hv : (s.inode k).valid = true) : Sound sb s' ∧
      Traffic (held (s.onDisk sb)) (changes l) (held (s'.onDisk sb)) := by
  have hother : ∀ {t}, t ≠ k → 0 < (s'.inode t).ref →
      0 < (s.inode t).ref ∧ (s.inode t).inum ≠ (s.inode k).inum := by
    intro t ht href
    rw [hc.other t ht] at href
    exact ⟨href, fun he => ht (h.table.inj href hr he)⟩
  refine ⟨⟨hc.owns, ⟨?_, ?_, ?_⟩⟩, ?_⟩
  · intro t href
    by_cases ht : t = k
    · subst ht
      rw [hc.inum]
      exact h.table.inum_lt hr
    · rw [hc.other t ht]
      exact h.table.inum_lt (hother ht href).1
  · intro t href hvt
    by_cases ht : t = k
    · subst ht
      rw [hc.ino, hc.inum, update_self, hc.type]
      exact ⟨(h.table.current hr hv).1, rfl⟩
    · obtain ⟨href', hne⟩ := hother ht href
      rw [hc.other t ht] at hvt ⊢
      rw [hc.ino, update_of_ne hne]
      exact h.table.current href' hvt
  · intro t u ht hu he
    by_cases htk : t = k
    · by_cases huk : u = k
      · rw [htk, huk]
      · subst htk
        rw [hc.inum, hc.other u huk] at he
        exact absurd he.symm (hother huk hu).2
    · by_cases huk : u = k
      · subst huk
        rw [hc.inum, hc.other t htk] at he
        exact absurd he (hother htk ht).2
      · rw [hc.other t htk, hc.other u huk] at he
        exact h.table.inj (hother htk ht).1 (hother huk hu).1 he
  · rw [← h.table.num hr hv]
    exact hc.traffic

/-! ## The operations -/

/-- `writei` keeps the image sound. -/
theorem Sound.writei (h : Sound sb s) (hr : 0 < (s.inode k).ref) (hv : (s.inode k).valid = true)
    (src : Nat → Option UInt8) (off n : UInt32) :
    Returns (writei sb k src off n) (fun _ s' l => Sound sb s' ∧
      Traffic (held (s.onDisk sb)) (changes l) (held (s'.onDisk sb))) s := by
  apply (writei_spec (h.table.current hr hv).1 (by rw [h.table.num hr hv]; exact h.owns)
    (h.table.inum_lt hr) src off n).mono
  rintro r s' l (⟨rfl, rfl⟩ | hc)
  · exact ⟨h, rfl⟩
  · exact hc.sound h hr hv

/-- `itrunc` keeps the image sound. -/
theorem Sound.itrunc (h : Sound sb s) (hr : 0 < (s.inode k).ref) (hv : (s.inode k).valid = true) :
    Returns (itrunc sb k) (fun _ s' l => Sound sb s' ∧
      Traffic (held (s.onDisk sb)) (changes l) (held (s'.onDisk sb))) s := by
  apply (itrunc_spec (h.table.current hr hv).1 (by rw [h.table.num hr hv]; exact h.owns)
    (h.table.inum_lt hr)).mono
  rintro r s' l ⟨hc, -⟩
  exact hc.sound h hr hv

/-- The system calls change the other fields of an inode: links, and the numbers of a device. -/
def setFields (sb : Superblock) (k : InodeId) (major minor nlink : Int16) : FilesM Unit := do
  modify fun s => s.setInode k { s.inode k with major := major, minor := minor, nlink := nlink }
  iupdate sb k

/-- Updates of the other fields of an inode keep the image sound. -/
theorem Sound.setFields (h : Sound sb s) (hr : 0 < (s.inode k).ref) (hv : (s.inode k).valid = true)
    (major minor nlink : Int16) :
    Returns (setFields sb k major minor nlink) (fun _ s' l => Sound sb s' ∧
      Traffic (held (s.onDisk sb)) (changes l) (held (s'.onDisk sb))) s := by
  have howns : Owns sb s (s.num sb k) := by
    rw [h.table.num hr hv]
    exact h.owns
  unfold Xv6.setFields
  apply Returns.seq_update
  have hm := howns.setFields { s.inode k with major := major, minor := minor, nlink := nlink }
    rfl rfl rfl rfl rfl
  apply (hm.iupdate (h.table.inum_lt hr)).mono
  rintro ⟨⟩ s' l ⟨hc, -⟩
  exact hc.sound h hr hv

/-- The table does not matter for the block numbers on disk. -/
theorem Owns.of_block (h : Owns sb s (s.onDisk sb)) (hb : s'.block = s.block) :
    Owns sb s' (s'.onDisk sb) ∧ s'.onDisk sb = s.onDisk sb := by
  have hdisk : s'.onDisk sb = s.onDisk sb := by
    unfold Files.onDisk Files.ino Files.entry
    rw [hb]
  refine ⟨⟨?_, ?_⟩, hdisk⟩
  · rw [hdisk]
    unfold Files.used Files.marked
    rw [hb]
    exact h.owned
  · unfold MetaMarked Files.marked
    rw [hb]
    exact h.metaMarked

/-- A change of the table that keeps the blocks. -/
theorem Sound.of_table (h : Sound sb s) (hb : s'.block = s.block) (ht : Table sb s') :
    Sound sb s' ∧ Traffic (held (s.onDisk sb)) [] (held (s'.onDisk sb)) := by
  obtain ⟨howns, hdisk⟩ := h.owns.of_block hb
  exact ⟨⟨howns, ht⟩, by rw [hdisk]; rfl⟩

/-- An entry of the table that is dropped, or whose count changes. -/
theorem Table.setRef (h : Table sb s) {n : Nat} (hn : 0 < n → 0 < (s.inode k).ref) :
    Table sb (s.setInode k { s.inode k with ref := n }) := by
  have hself : (s.setInode k { s.inode k with ref := n }).inode k = { s.inode k with ref := n } :=
    update_self ..
  have hother : ∀ {t}, t ≠ k → (s.setInode k { s.inode k with ref := n }).inode t = s.inode t :=
    fun ht => update_of_ne ht ..
  have hfields : ∀ t, 0 < ((s.setInode k { s.inode k with ref := n }).inode t).ref →
      0 < (s.inode t).ref ∧
      ((s.setInode k { s.inode k with ref := n }).inode t).inum = (s.inode t).inum ∧
      ((s.setInode k { s.inode k with ref := n }).inode t).valid = (s.inode t).valid ∧
      ((s.setInode k { s.inode k with ref := n }).inode t).toDinode = (s.inode t).toDinode := by
    intro t href
    by_cases ht : t = k
    · subst ht
      rw [hself] at href ⊢
      exact ⟨hn href, rfl, rfl, rfl⟩
    · rw [hother ht] at href ⊢
      exact ⟨href, rfl, rfl, rfl⟩
  refine ⟨?_, ?_, ?_⟩
  · intro t href
    obtain ⟨hr, hi, -⟩ := hfields t href
    rw [hi]
    exact h.inum_lt hr
  · intro t href hv
    obtain ⟨hr, hi, hval, hd⟩ := hfields t href
    rw [hval] at hv
    rw [hi, hd]
    exact h.current hr hv
  · intro t u ht hu he
    obtain ⟨hr, hi, -⟩ := hfields t ht
    obtain ⟨hr', hi', -⟩ := hfields u hu
    rw [hi, hi'] at he
    exact h.inj hr hr' he

/-- The end of `iput` when it frees the inode: type zero, on disk too, and the entry goes. -/
theorem iput_free (h : Sound sb s) (hr : (s.inode k).ref = 1) (hv : (s.inode k).valid = true)
    (hempty : ∀ i, (s.inode k).addrs i = 0) :
    Returns (do
      modify fun s => s.setInode k { s.inode k with type := 0 }
      iupdate sb k
      modify fun s => s.setInode k { s.inode k with valid := false }
      modify fun s => s.setInode k { s.inode k with ref := (s.inode k).ref - 1 })
      (fun _ s' l => Sound sb s' ∧ Traffic (held (s.onDisk sb)) (changes l) (held (s'.onDisk sb))) s := by
  have hpos : 0 < (s.inode k).ref := by omega
  apply Returns.seq_update
  generalize hs₁ : s.setInode k { s.inode k with type := 0 } = s₁
  have hself : s₁.inode k = { s.inode k with type := 0 } := by
    rw [← hs₁]
    exact update_self ..
  have hother : ∀ t, t ≠ k → s₁.inode t = s.inode t := by
    intro t ht
    rw [← hs₁]
    exact update_of_ne ht ..
  have hino : s₁.ino sb = s.ino sb := by
    rw [← hs₁]
    rfl
  have hnum : s₁.num sb k = s.onDisk sb := by
    unfold Files.num Files.cur Files.onDisk
    rw [hself, hino, ← hs₁]
    apply blockAt_update_empty (.inl rfl)
    rw [(h.table.current hpos hv).2]
    exact .inr hempty
  have howns : Owns sb s₁ (s₁.num sb k) := by
    rw [hnum, ← hs₁]
    exact ⟨h.owns.owned, h.owns.metaMarked⟩
  apply Returns.seq
  apply (@iupdate_spec sb _ _ (by rw [hself]; exact h.table.inum_lt hpos)).mono
  rintro ⟨⟩ s₂ l ⟨hw, hl⟩
  obtain ⟨hnum₂, howns₂⟩ := hw.num howns
  apply Returns.seq_update
  apply Returns.update
  rw [List.append_nil, hl]
  generalize hs₃ : Files.setInode (s₂.setInode k _) k _ = s₃
  have hself₃ : (s₃.inode k).ref = 0 := by
    rw [← hs₃]
    simp [Files.setInode, hw.inode, hself, hr]
  have hother₃ : ∀ t, t ≠ k → s₃.inode t = s.inode t := by
    intro t ht
    rw [← hs₃]
    simp only [Files.setInode, update_of_ne ht]
    rw [hw.inode]
    exact hother t ht
  have hblock : s₃.block = s₂.block := by
    rw [← hs₃]
    rfl
  have hdisk₂ : s₂.onDisk sb = s.onDisk sb := hnum₂.trans hnum
  have howns₂' : Owns sb s₂ (s₂.onDisk sb) := by
    rw [hdisk₂, ← hnum]
    exact howns₂
  obtain ⟨howns₃, hdisk₃⟩ := howns₂'.of_block hblock
  have hino₃ : s₃.ino sb = update (s.ino sb) (s.inode k).inum
      { (s.inode k).toDinode with type := 0 } := by
    have : s₃.ino sb = s₂.ino sb := by
      unfold Files.ino
      rw [hblock]
    rw [this, hw.ino]
    unfold Files.cur
    rw [hself, hino]
  have hlive : ∀ {t}, 0 < (s₃.inode t).ref →
      t ≠ k ∧ 0 < (s.inode t).ref ∧ (s.inode t).inum ≠ (s.inode k).inum := by
    intro t ht
    have htk : t ≠ k := by
      rintro rfl
      omega
    rw [hother₃ t htk] at ht
    exact ⟨htk, ht, fun he => htk (h.table.inj ht hpos he)⟩
  refine ⟨⟨howns₃, ⟨?_, ?_, ?_⟩⟩, ?_⟩
  · intro t ht
    obtain ⟨htk, href, -⟩ := hlive ht
    rw [hother₃ t htk]
    exact h.table.inum_lt href
  · intro t ht hvt
    obtain ⟨htk, href, hne⟩ := hlive ht
    rw [hother₃ t htk] at hvt ⊢
    rw [hino₃, update_of_ne hne]
    exact h.table.current href hvt
  · intro t u ht hu he
    obtain ⟨htk, href, -⟩ := hlive ht
    obtain ⟨huk, href', -⟩ := hlive hu
    rw [hother₃ t htk, hother₃ u huk] at he
    exact h.table.inj href href' he
  · rw [hdisk₃, hdisk₂]
    rfl

/-- **`iput`** returns; it frees the inode if nothing refers to it any more. -/
theorem Sound.iput (h : Sound sb s) (hr : 0 < (s.inode k).ref) :
    Returns (iput sb k) (fun _ s' l => Sound sb s' ∧
      Traffic (held (s.onDisk sb)) (changes l) (held (s'.onDisk sb))) s := by
  unfold Xv6.iput
  apply Returns.seq_get
  dsimp only
  split
  · next hfree =>
      obtain ⟨hone, hv, -⟩ := hfree
      apply Returns.seq
      apply (itrunc_spec (h.table.current hr hv).1 (by rw [h.table.num hr hv]; exact h.owns)
        (h.table.inum_lt hr)).mono
      rintro ⟨⟩ s₁ l₁ ⟨hc, hempty⟩
      obtain ⟨hs₁, htr⟩ := hc.sound h hr hv
      apply (iput_free hs₁ (hc.ref.trans hone) (hc.valid.trans hv) hempty).mono
      rintro ⟨⟩ s₂ l₂ ⟨hs₂, htr₂⟩
      refine ⟨hs₂, ?_⟩
      rw [changes_append]
      exact htr.append htr₂
  · apply Returns.update
    exact h.of_table rfl (h.table.setRef fun _ => hr)

/-- What `iget` makes of the table: the entry of the inode has one more reference, or an unused entry
becomes its. -/
inductive Taken (inum : Nat) (s : Files) : InodeId → Files → Prop
  | shared {k : InodeId} (href : 0 < (s.inode k).ref) :
      Taken inum s k (s.setInode k { s.inode k with ref := (s.inode k).ref + 1 })
  | fresh {k : InodeId} (hnone : ∀ t, 0 < (s.inode t).ref → (s.inode t).inum ≠ inum) (hfree : (s.inode k).ref = 0) :
      Taken inum s k (s.setInode k { s.inode k with inum := inum, ref := 1, valid := false })

theorem Taken.block {inum : Nat} (h : Taken inum s k s') : s'.block = s.block := by
  cases h <;> rfl

/-- **`iget`** panics when the table is full, or returns an entry. -/
theorem iget_taken (inum : Nat) (s : Files) : iget inum s = .error .iget ∨
    Returns (iget inum) (fun k s' l => Taken inum s k s' ∧ l = []) s := by
  unfold iget
  rw [get_bind_apply]
  cases hfound : firstIdx fun k => decide (0 < (s.inode k).ref) && (s.inode k).inum == inum with
  | some k =>
    right
    have hk := firstIdx_holds hfound
    simp only [Bool.and_eq_true, decide_eq_true_eq] at hk
    apply Returns.seq_get
    rw [hfound]
    apply Returns.seq_update
    exact .ret ⟨.shared hk.1, rfl⟩
  | none =>
    cases hempty : firstIdx fun k => (s.inode k).ref == 0 with
    | none => exact .inl rfl
    | some k =>
      right
      have hk := firstIdx_holds hempty
      simp only [beq_iff_eq] at hk
      apply Returns.seq_get
      rw [hfound]
      dsimp only
      rw [hempty]
      apply Returns.seq_update
      refine .ret ⟨.fresh (fun t ht he => ?_) hk, rfl⟩
      have := firstIdx_eq_none.mp hfound t
      simp [ht, he] at this

/-- `iget` keeps the table of inodes. -/
theorem Table.taken {inum : Nat} (h : Table sb s) (hlt : inum < sb.ninodes) (ht : Taken inum s k s') :
    Table sb s' := by
  cases ht with
  | shared href => exact h.setRef fun _ => href
  | fresh hnew =>
    generalize hip : { s.inode k with inum := inum, ref := 1, valid := false } = ip
    have hself : (s.setInode k ip).inode k = ip := update_self ..
    have hother : ∀ {t}, t ≠ k → (s.setInode k ip).inode t = s.inode t :=
      fun ht => update_of_ne ht ..
    have hinum : ip.inum = inum := by rw [← hip]
    have hinvalid : ip.valid = false := by rw [← hip]
    refine ⟨?_, ?_, ?_⟩
    · intro t ht
      by_cases htk : t = k
      · rw [htk, hself, hinum]
        exact hlt
      · rw [hother htk] at ht ⊢
        exact h.inum_lt ht
    · intro t ht hv
      by_cases htk : t = k
      · rw [htk, hself, hinvalid] at hv
        cases hv
      · rw [hother htk] at ht hv ⊢
        exact h.current ht hv
    · intro t u ht hu he
      by_cases htk : t = k
      · by_cases huk : u = k
        · rw [htk, huk]
        · rw [htk, hself, hinum, hother huk] at he
          rw [hother huk] at hu
          exact absurd he.symm (hnew u hu)
      · by_cases huk : u = k
        · rw [huk, hself, hinum, hother htk] at he
          rw [hother htk] at ht
          exact absurd he (hnew t ht)
        · rw [hother htk] at ht he
          rw [hother huk] at hu he
          exact h.inj ht hu he

/-- **`ilock`** panics for a free inode, or reads the inode in. -/
theorem Sound.ilock (h : Sound sb s) :
    (∃ e, ilock sb k s = .error e ∧ e ≠ .freeingFreeBlock) ∨
      Returns (ilock sb k) (fun _ s' l => Sound sb s' ∧
        Traffic (held (s.onDisk sb)) (changes l) (held (s'.onDisk sb))) s := by
  unfold Xv6.ilock
  rw [get_bind_apply]
  dsimp only
  by_cases href : (s.inode k).ref < 1
  · rw [if_pos href]
    exact .inl ⟨.ilock, rfl, by decide⟩
  · rw [if_neg href]
    cases hv : (s.inode k).valid with
    | true =>
      right
      apply Returns.seq_get
      rw [if_neg href, hv, if_neg (by simp)]
      exact .ret ⟨h, rfl⟩
    | false =>
      rw [if_pos rfl]
      have hpos : 0 < (s.inode k).ref := by omega
      have hlt := h.table.inum_lt hpos
      generalize hd : Dinode.ofBlock (s.block (sb.iblock (s.inode k).inum)) ((s.inode k).inum % ipb) = d
      have hino : s.ino sb (s.inode k).inum = d := by
        rw [ino_of_lt hlt]
        exact hd
      by_cases htype : d.type = 0
      · left
        refine ⟨.ilockNoType, ?_, by decide⟩
        rw [modify_bind_apply]
        exact congrFun (if_pos htype) _
      · right
        apply Returns.seq_get
        rw [if_neg href, hv, if_pos rfl, hd]
        apply Returns.seq_update
        rw [if_neg htype]
        apply Returns.ret
        refine h.of_table rfl ?_
        generalize hip : { s.inode k with toDinode := d, valid := true } = ip
        have hself : (s.setInode k ip).inode k = ip := update_self ..
        have hother : ∀ {t}, t ≠ k → (s.setInode k ip).inode t = s.inode t :=
          fun ht => update_of_ne ht ..
        have hfields : ∀ t, ((s.setInode k ip).inode t).ref = (s.inode t).ref ∧
            ((s.setInode k ip).inode t).inum = (s.inode t).inum := by
          intro t
          by_cases htk : t = k
          · rw [htk, hself, ← hip]
            exact ⟨rfl, rfl⟩
          · rw [hother htk]
            exact ⟨rfl, rfl⟩
        refine ⟨?_, ?_, ?_⟩
        · intro t ht
          rw [(hfields t).1] at ht
          rw [(hfields t).2]
          exact h.table.inum_lt ht
        · intro t ht hvt
          by_cases htk : t = k
          · rw [htk, hself, ← hip]
            exact ⟨htype, hino⟩
          · rw [hother htk] at ht hvt ⊢
            exact h.table.current ht hvt
        · intro t u ht hu he
          rw [(hfields t).1] at ht
          rw [(hfields u).1] at hu
          rw [(hfields t).2, (hfields u).2] at he
          exact h.table.inj ht hu he

/-- The inode that `ialloc` writes. -/
theorem Sound.ialloc_write (h : Sound sb s) {inum : Nat} (hlt : inum < sb.ninodes)
    (hzero : (s.ino sb inum).type = 0) (type : Int16) :
    let s' := s.setBlock (sb.iblock inum) ({ Dinode.zero with type := type }.toBlock
      (s.block (sb.iblock inum)) (inum % ipb))
    Sound sb s' ∧ s'.onDisk sb = s.onDisk sb := by
  intro s'
  have hib := sb.iblock_lt hlt
  have hle := sb.bmapstart_le_dataStart
  have hino : s'.ino sb = update (s.ino sb) inum { Dinode.zero with type := type } :=
    ino_toBlock hlt _
  have hblock : ∀ x, sb.dataStart ≤ x → s'.block x = s.block x :=
    fun x hx => setBlock_block_of_ne (by omega)
  have hused : s'.used sb = s.used sb := setBlock_used (.inl hib)
  have hdisk : s'.onDisk sb = s.onDisk sb := by
    have hent : blockAt (s.ino sb) s.entry = blockAt (s.ino sb) s'.entry := by
      apply blockAt_congr
      intro x j hx _
      exact (entry_congr (hblock _ (h.owns.dataStart_le (p := .indirect x) hx)) j).symm
    unfold Files.onDisk
    rw [hino, hent]
    exact blockAt_update_empty (.inr fun _ => rfl) (.inl hzero)
  refine ⟨⟨⟨?_, ?_⟩, ⟨h.table.inum_lt, ?_, h.table.inj⟩⟩, hdisk⟩
  · rw [hdisk, hused]
    exact h.owns.owned
  · intro b hb
    have := dataStart_le_size sb
    rw [marked_setBlock (by omega) (.inl hib)]
    exact h.owns.metaMarked b hb
  · intro t ht hv
    obtain ⟨htype, hcur⟩ := h.table.current ht hv
    have hne : (s.inode t).inum ≠ inum := by
      rintro rfl
      rw [hcur] at hzero
      exact htype hzero
    refine ⟨htype, ?_⟩
    rw [hino]
    exact (update_of_ne hne ..).trans hcur

/-- **`ialloc`** panics when the table is full, or returns. -/
theorem Sound.iallocFrom (h : Sound sb s) (type : Int16) (l : List Nat)
    (hl : ∀ inum ∈ l, inum < sb.ninodes) :
    iallocFrom sb type l s = .error .iget ∨
      Returns (iallocFrom sb type l) (fun _ s' ev => Sound sb s' ∧
        Traffic (held (s.onDisk sb)) (changes ev) (held (s'.onDisk sb))) s := by
  induction l with
  | nil => exact .inr (.ret ⟨h, rfl⟩)
  | cons inum l ih =>
    have hlt := hl inum List.mem_cons_self
    unfold Xv6.iallocFrom
    rw [get_bind_apply]
    dsimp only
    by_cases hzero : (s.ino sb inum).type = 0
    · obtain ⟨hs', hdisk⟩ := h.ialloc_write hlt hzero type
      rw [ino_of_lt hlt] at hzero
      rw [if_pos hzero]
      rcases iget_taken inum _ with herr | hret
      · left
        exact bind_run_error (logBlock_run _ _ s) (bind_of_error herr)
      · right
        apply Returns.seq_get
        rw [if_pos hzero]
        apply Returns.seq
        refine .of_ok (logBlock_run _ _ s) ?_
        apply Returns.seq
        apply hret.mono
        rintro t s'' ev ⟨ht, rfl⟩
        apply Returns.ret
        obtain ⟨hs'', htr⟩ := hs'.of_table ht.block (hs'.table.taken hlt ht)
        rw [hdisk] at htr
        exact ⟨hs'', htr⟩
    · have hzero' := hzero
      rw [ino_of_lt hlt] at hzero'
      rw [if_neg hzero']
      rcases ih fun x hx => hl x (List.mem_cons_of_mem _ hx) with herr | hret
      · exact .inl herr
      · right
        apply Returns.seq_get
        rw [if_neg hzero']
        exact hret

/-! ## Runs -/

inductive FileAct where
  | ialloc (type : Int16)
  | iget (inum : Nat)
  | idup (k : InodeId)
  | ilock (k : InodeId)
  | writei (k : InodeId) (src : Nat → Option UInt8) (off n : UInt32)
  | itrunc (k : InodeId)
  | setFields (k : InodeId) (major minor nlink : Int16)
  | iput (k : InodeId)

namespace FileAct

def run (sb : Superblock) : FileAct → FilesM Unit
  | .ialloc type => do
      let _ ← Xv6.ialloc sb type
  | .iget inum => do
      let _ ← Xv6.iget inum
  | .idup k => modify fun s => s.setInode k { s.inode k with ref := (s.inode k).ref + 1 }
  | .ilock k => Xv6.ilock sb k
  | .writei k src off n => do
      let _ ← Xv6.writei sb k src off n
  | .itrunc k => Xv6.itrunc sb k
  | .setFields k major minor nlink => Xv6.setFields sb k major minor nlink
  | .iput k => Xv6.iput sb k

/-- Whoever works on an inode has a reference to it, and has locked it where its contents matter. -/
def Allowed (sb : Superblock) (s : Files) : FileAct → Prop
  | .ialloc _ | .ilock _ => True
  | .iget inum => inum < sb.ninodes
  | .idup k | .iput k => 0 < (s.inode k).ref
  | .writei k _ _ _ | .itrunc k | .setFields k _ _ _ =>
    0 < (s.inode k).ref ∧ (s.inode k).valid = true

end FileAct

/-- A system call takes a step. -/
def Files.Step (sb : Superblock) (s : Files) (a : FileAct) (s' : Files) : Prop :=
  a.Allowed sb s ∧ ∃ l, a.run sb s = .ok ((), s', l)

/-- **One operation**: it does not panic in `bfree`, and if it returns, the invariant holds again. -/
theorem Sound.act (h : Sound sb s) {a : FileAct} (ha : a.Allowed sb s) :
    (∃ e, a.run sb s = .error e ∧ e ≠ .freeingFreeBlock) ∨
      Returns (a.run sb) (fun _ s' l => Sound sb s' ∧
        Traffic (held (s.onDisk sb)) (changes l) (held (s'.onDisk sb))) s := by
  have hdrop : ∀ {α : Type} {x : FilesM α},
      Returns x (fun _ s' l => Sound sb s' ∧
        Traffic (held (s.onDisk sb)) (changes l) (held (s'.onDisk sb))) s →
      Returns (x >>= fun _ => pure ()) (fun _ s' l => Sound sb s' ∧
        Traffic (held (s.onDisk sb)) (changes l) (held (s'.onDisk sb))) s := by
    intro α x hx
    apply Returns.seq
    apply hx.mono
    intro _ s' l hs'
    apply Returns.ret
    rw [List.append_nil]
    exact hs'
  cases a with
  | ialloc type =>
    have hl : ∀ inum ∈ List.range' 1 (sb.ninodes - 1), inum < sb.ninodes := by
      intro inum hmem
      have := List.mem_range'_1.mp hmem
      omega
    rcases h.iallocFrom type _ hl with herr | hret
    · exact .inl ⟨.iget, bind_of_error herr, by decide⟩
    · exact .inr (hdrop hret)
  | iget inum =>
    rcases iget_taken inum s with herr | hret
    · exact .inl ⟨.iget, bind_of_error herr, by decide⟩
    · right
      apply hdrop
      apply hret.mono
      rintro t s' l ⟨ht, rfl⟩
      exact h.of_table ht.block (h.table.taken ha ht)
  | idup k =>
    right
    apply Returns.update
    exact h.of_table rfl (h.table.setRef fun _ => ha)
  | ilock k => exact h.ilock
  | writei k src off n => exact .inr (hdrop (h.writei ha.1 ha.2 src off n))
  | itrunc k => exact .inr (h.itrunc ha.1 ha.2)
  | setFields k major minor nlink => exact .inr (h.setFields ha.1 ha.2 major minor nlink)
  | iput k => exact .inr (h.iput ha)

/-- Every call keeps the image sound. -/
theorem Sound.step {a : FileAct} (h : Sound sb s) (hstep : Files.Step sb s a s') : Sound sb s' := by
  obtain ⟨ha, l, hrun⟩ := hstep
  rcases h.act ha with ⟨e, herr, -⟩ | ⟨r, s₁, l₁, hret, hs₁, -⟩
  · cases herr.symm.trans hrun
  · cases hret.symm.trans hrun
    exact hs₁

/-- **Every disk block has one owner.** From an image in which all blocks below the first data block
are marked and the invariant holds, it holds after every sequence of operations; no operation frees a
free block, and every block that `balloc` hands out is in no place at that time. -/
theorem disk_blocks_owned {s₀ : Files} {as : List FileAct} (hboot : ∀ k, (s₀.inode k).ref = 0)
    (howned : Owned (dataBlocks sb) (s₀.used sb) (s₀.onDisk sb)) (hmeta : MetaMarked sb s₀)
    (hrun : Run (Files.Step sb) s₀ as s) :
    Owned (dataBlocks sb) (s.used sb) (s.onDisk sb) ∧
    ∀ a : FileAct, a.Allowed sb s → a.run sb s ≠ .error .freeingFreeBlock ∧
      ∀ s' l, a.run sb s = .ok ((), s', l) →
        Traffic (held (s.onDisk sb)) (changes l) (held (s'.onDisk sb)) := by
  have h₀ : Sound sb s₀ := by
    have hnone : ∀ k, ¬ 0 < (s₀.inode k).ref := fun k => by simp [hboot k]
    exact ⟨⟨howned, hmeta⟩, ⟨fun hk => absurd hk (hnone _), fun hk => absurd hk (hnone _),
      fun hk => absurd hk (hnone _)⟩⟩
  have hs : Sound sb s := Run.invariant h₀ (fun _ _ _ hi hstep => hi.step hstep) hrun
  refine ⟨hs.owns.owned, fun a ha => ?_⟩
  rcases hs.act ha with ⟨e, herr, hne⟩ | ⟨r, s₁, l₁, hret, -, htr⟩
  · refine ⟨?_, fun s' l hok => ?_⟩
    · rw [herr]
      exact fun he => hne (Except.error.inj he)
    · cases herr.symm.trans hok
  · refine ⟨?_, fun s' l hok => ?_⟩
    · rw [hret]
      exact fun he => by cases he
    · cases hret.symm.trans hok
      exact htr

/-! ## An image with one empty file -/

/-- A disk of 100 blocks: the inodes in block 32, the bitmap from block 33 on, and data from block 50
on. -/
def smallDisk : Superblock where
  size := 100
  nblocks := 50
  ninodes := 16
  inodestart := 32
  bmapstart := 33
  nblocks_le := by decide
  size_lt := by decide
  inodes_fit := by decide
  bitmap_fit := by decide

/-- An empty file with inode 1, and a bitmap. -/
def smallImage (bitmap : Block) : Files where
  block b :=
    if b = 32 then { Dinode.zero with type := 2 }.toBlock (fun _ => 0) 1
    else if b = 33 then bitmap
    else fun _ => 0
  inode _ := ⟨.zero, 0, 0, false⟩

namespace smallImage

variable (bitmap : Block)

theorem ofBlock_zero_type (k : Nat) : (Dinode.ofBlock (fun _ => 0) k).type = 0 := by
  unfold Dinode.ofBlock
  dsimp only
  rw [Words.word_zero]
  rfl

theorem ino_one : (smallImage bitmap).ino smallDisk 1 = { Dinode.zero with type := 2 } := by
  rw [ino_of_lt (by decide)]
  exact Dinode.ofBlock_toBlock _ _ (by decide)

/-- No file of the small image has a block. -/
theorem onDisk_eq_zero (p : Place) : (smallImage bitmap).onDisk smallDisk p = 0 := by
  have hempty : ∀ inum, ((smallImage bitmap).ino smallDisk inum).type = 0 ∨
      ∀ i, ((smallImage bitmap).ino smallDisk inum).addrs i = 0 := by
    intro inum
    by_cases hone : inum = 1
    · subst hone
      rw [ino_one]
      exact .inr fun _ => rfl
    · by_cases hlt : inum < smallDisk.ninodes
      · left
        have hlt' : inum < 16 := hlt
        have hblk : smallDisk.iblock inum = 32 := by
          show inum / 16 + 32 = 32
          omega
        have hidx : inum % ipb ≠ 1 := by
          show inum % 16 ≠ 1
          omega
        rw [ino_of_lt hlt, hblk]
        show (Dinode.ofBlock ({ Dinode.zero with type := 2 }.toBlock (fun _ => 0) 1) (inum % ipb)).type = 0
        rw [Dinode.ofBlock_toBlock_of_ne _ _ hidx]
        exact ofBlock_zero_type _
      · left
        unfold Files.ino
        rw [if_neg hlt]
        rfl
  unfold Files.onDisk
  cases p with
  | slot inum i =>
    simp only [blockAt]
    split
    · rfl
    · next ht => exact (hempty inum).resolve_left ht i
  | entry inum j =>
    simp only [blockAt]
    apply if_pos
    rcases hempty inum with ht | ha
    · exact .inl ht
    · exact .inr (ha _)

theorem owned : Owned (dataBlocks smallDisk) ((smallImage bitmap).used smallDisk)
    ((smallImage bitmap).onDisk smallDisk) :=
  ⟨fun hp => absurd (onDisk_eq_zero bitmap _) hp, fun hp => absurd (onDisk_eq_zero bitmap _) hp,
    fun hp => absurd (onDisk_eq_zero bitmap _) hp⟩

/-- The file opened: its entry of the table is read in. -/
def opened : Files :=
  (smallImage bitmap).setInode 0 ⟨{ Dinode.zero with type := 2 }, 1, 1, true⟩

end smallImage

instance FileAct.decidableAllowed : (a : FileAct) → Decidable (a.Allowed sb s)
  | .ialloc _ | .ilock _ => .isTrue trivial
  | .iget _ | .idup _ | .iput _ => inferInstanceAs (Decidable (_ < _))
  | .writei .. | .itrunc _ | .setFields .. => inferInstanceAs (Decidable (_ ∧ _))

/-- A step, computed. -/
def FileAct.exec (sb : Superblock) (s : Files) (a : FileAct) : Option Files :=
  if a.Allowed sb s then (a.run sb).final s else none

theorem FileAct.step_of_exec {a : FileAct} (h : a.exec sb s = some s') : Files.Step sb s a s' := by
  obtain ⟨ha, hs⟩ := Option.ite_none_right_eq_some.mp h
  obtain ⟨⟨⟩, l, hrun⟩ := run_of_final hs
  exact ⟨ha, l, hrun⟩

/-- **The mark of a block below the first data block is needed**: from an image in which the block
numbers are fine but the superblock is not marked, a write gives the superblock to a file. -/
theorem disk_blocks_owned_fails : ∃ sb s₀ as s, (∀ k, (Files.inode s₀ k).ref = 0) ∧
    Owned (dataBlocks sb) (s₀.used sb) (s₀.onDisk sb) ∧ Run (Files.Step sb) s₀ as s ∧
    ¬ Owned (dataBlocks sb) (s.used sb) (s.onDisk sb) := by
  have hexec : ([.iget 1, .ilock 0, .writei 0 (fun _ => some 0) 0 1].foldlM (FileAct.exec smallDisk)
      (smallImage (Bits.setBit (fun _ => 0) 0))).any fun s => s.onDisk smallDisk (.slot 1 0) = 1 := by
    decide +kernel
  obtain ⟨s, hrun, hs⟩ := Run.of_exec hexec fun _ _ _ => FileAct.step_of_exec
  have hblock := of_decide_eq_true hs
  refine ⟨smallDisk, _, _, s, fun _ => rfl, smallImage.owned _, hrun, fun hown => ?_⟩
  have hgood := hown.good (p := .slot 1 0) (by rw [hblock]; decide)
  rw [hblock] at hgood
  exact absurd hgood.1 (by decide)

/-- The first 56 blocks are marked. -/
def partBitmap : Block := fun j => if j.val < 7 then 255 else 0

/-- A file gets its first block, number 56, and loses it again. -/
theorem disk_blocks_owned_truncated : ∃ s s' l,
    Run (Files.Step smallDisk) (smallImage partBitmap) [.iget 1, .ilock 0, .writei 0 (fun _ => some 7) 0 10] s ∧
    s.onDisk smallDisk (.slot 1 0) = 56 ∧ Owned (dataBlocks smallDisk) (s.used smallDisk) (s.onDisk smallDisk) ∧
    itrunc smallDisk 0 s = .ok ((), s', l) ∧ .bfree 56 ∈ l ∧
    Traffic (held (s.onDisk smallDisk)) (changes l) (held (s'.onDisk smallDisk)) := by
  have hexec : ([.iget 1, .ilock 0, .writei 0 (fun _ => some 7) 0 10].foldlM (FileAct.exec smallDisk)
      (smallImage partBitmap)).any fun s => s.onDisk smallDisk (.slot 1 0) = 56 ∧
        (FileAct.itrunc 0).Allowed smallDisk s ∧
        Returns (itrunc smallDisk 0) (fun _ _ l => .bfree 56 ∈ l) s := by
    decide +kernel
  have hmeta : ∀ b < 50, (smallImage partBitmap).marked smallDisk b = true := by decide +kernel
  obtain ⟨s, hrun, hs⟩ := Run.of_exec hexec fun _ _ _ => FileAct.step_of_exec
  obtain ⟨hblock, hallow, ⟨⟩, s', l, htrunc, hfree⟩ := of_decide_eq_true hs
  obtain ⟨hown, hnext⟩ := disk_blocks_owned (fun _ => rfl) (smallImage.owned partBitmap) hmeta hrun
  exact ⟨s, s', l, hrun, hblock, hown, htrunc, hfree, (hnext (.itrunc 0) hallow).2 s' l htrunc⟩

end Xv6
