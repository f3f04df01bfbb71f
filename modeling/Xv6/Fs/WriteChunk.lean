import Xv6.Fs.Bio
import Xv6.Fs.FileOps

/-!
# `filewrite` and the size of transactions

`filewrite` cuts a long write into chunks and writes each of them in a transaction of its own, so that
none exceeds `MAXOPBLOCKS`. A chunk of three blocks touches four blocks of the file if it is not aligned.
Beside them a transaction logs the bitmap, the indirect block and the inode: seven blocks at most, whatever
the inode and the bitmap hold. Nothing is assumed about them here, not even that the file system is in order.
-/

namespace Xv6

open TraceM Finset

/-! ## `filewrite` -/

/-- `max` in `filewrite`. -/
def maxChunk : Nat := (maxOpBlocks - 1 - 1 - 2) / 2 * bsize

/-- The file system, and `f->off`. -/
structure Writing where
  files : Files
  off : UInt32

variable (sb : Superblock) (ip : InodeId) (src : Nat → Option UInt8)

/-- What is done between `begin_op` and `end_op`, for a chunk of `n` bytes: the value of `r`. -/
def writeChunk (n : Nat) (w : Writing) : Except FilesPanic (Int × Writing × List FilesEvent) := do
  let (r, files, l) ← (do ilock sb ip; writei sb ip src w.off (UInt32.ofNat n) : FilesM Int) w.files
  return (r, ⟨files, if 0 < r then w.off + UInt32.ofNat r.toNat else w.off⟩, l)

/-- The loop of `filewrite`, with the events of each section between `begin_op` and `end_op`. Other
processes may run before a section begins: `others i` is what they do to the file system and to `f->off`
before the section that starts at byte `i`. -/
def filewriteLoop (others : Nat → Writing → Writing) (n i : Nat) (w : Writing) :
    Except FilesPanic (Int × Writing) × List (List FilesEvent) :=
  if _h : i < n then
    let n₁ := min (n - i) maxChunk
    match writeChunk sb ip (fun j => src (i + j)) n₁ (others i w) with
    | .error e => (.error e, [])
    | .ok (r, w, l) =>
      if r ≠ n₁ then (.ok (-1, w), [l])
      else
        let (res, ls) := filewriteLoop others n (i + n₁) w
        (res, l :: ls)
  else (.ok (n, w), [])
termination_by n - i
decreasing_by
  have : 0 < maxChunk := by decide
  omega

/-- `filewrite` of an inode that is open for writing. -/
def filewrite (others : Nat → Writing → Writing) (n : Int32) (w : Writing) :
    Except FilesPanic (Int × Writing) × List (List FilesEvent) :=
  if n < 0 then (.ok (-1, w), []) else filewriteLoop sb ip src others n.toInt.toNat 0 w

/-! ## What is logged -/

/-- The blocks that were logged. -/
def loggedBlocks (l : List FilesEvent) : Finset Nat :=
  (l.filterMap fun | .logWrite b => some b | _ => none).toFinset

theorem mem_loggedBlocks {l : List FilesEvent} {b : Nat} : b ∈ loggedBlocks l ↔ .logWrite b ∈ l := by
  unfold loggedBlocks
  rw [List.mem_toFinset, List.mem_filterMap]
  constructor
  · rintro ⟨ev, hev, hb⟩
    split at hb
    · cases hb
      exact hev
    · cases hb
  · exact fun h => ⟨_, h, rfl⟩

variable {sb ip src} {s : Files}

/-- `balloc` logs the bitmap and the block that it hands out. -/
theorem balloc_logged (hsb : sb.size ≤ bpb) : Returns (balloc sb) (fun a s' l => s'.inode = s.inode ∧
    ∀ b, .logWrite b ∈ l → b = sb.bmapstart ∨ b = a.toNat) s := by
  have hbs : (List.range ((sb.size + bpb - 1) / bpb)).map (fun k => k * bpb) ⊆ [0] := by
    intro b hb
    obtain ⟨k, hk, rfl⟩ := List.mem_map.mp hb
    rw [List.mem_range] at hk
    have hk0 : k = 0 := by
      unfold bpb bsize at *
      omega
    simp [hk0]
  unfold balloc
  generalize (List.range ((sb.size + bpb - 1) / bpb)).map (fun k => k * bpb) = bs at hbs
  induction bs with
  | nil => exact .ret ⟨rfl, fun b hb => (List.not_mem_nil hb).elim⟩
  | cons b bs ih =>
    obtain rfl : b = 0 := by simpa using hbs List.mem_cons_self
    unfold ballocFrom
    apply Returns.seq_get
    dsimp only
    split
    · next bi hbi =>
        have hfound := firstIdx_holds hbi
        simp only [Bool.and_eq_true, decide_eq_true_eq] at hfound
        have hval : (UInt32.ofNat (0 + bi)).toNat = 0 + bi := by
          have := sb.size_lt
          rw [UInt32.toNat_ofNat', Nat.mod_eq_of_lt (by omega)]
        refine ⟨_, _, _, rfl, rfl, fun b hb => ?_⟩
        rw [hval]
        simpa [Superblock.bblock] using hb
    · exact ih (List.subset_of_cons_subset hbs)

/-- The entries of `addrs` that are filled stay as they are. -/
def Filed (ip : InodeId) (s s' : Files) : Prop :=
  ∀ i, (s.inode ip).addrs i ≠ 0 → (s'.inode ip).addrs i = (s.inode ip).addrs i

theorem Filed.of_eq {s' : Files} (h : s'.inode = s.inode) : Filed ip s s' := fun i _ => by rw [h]

theorem Filed.trans {s' s'' : Files} (h : Filed ip s s') (h' : Filed ip s' s'') : Filed ip s s'' := by
  intro i hi
  have hi' := h i hi
  rw [h' i (by rw [hi']; exact hi), hi']

/-- The block is the indirect block of the inode. -/
def Files.IsIndirect (s : Files) (ip : InodeId) (b : Nat) : Prop :=
  (s.inode ip).addrs (Fin.last ndirect) ≠ 0 ∧ b = ((s.inode ip).addrs (Fin.last ndirect)).toNat

theorem Files.IsIndirect.filed {s' : Files} {b : Nat} (h : s.IsIndirect ip b) (hf : Filed ip s s') :
    s'.IsIndirect ip b := by
  unfold IsIndirect
  rw [hf _ h.1]
  exact h

/-- `bmap` in the inode logs the bitmap and the new block only. -/
theorem bmapSlot_logged (hsb : sb.size ≤ bpb) (i : Fin (ndirect + 1)) :
    Returns (bmapSlot sb ip i) (fun a s' l => Filed ip s s' ∧ (a ≠ 0 → (s'.inode ip).addrs i = a) ∧
      ∀ b, .logWrite b ∈ l → b = sb.bmapstart ∨ b = a.toNat) s := by
  apply (Files.bmapSlot_of_balloc ip i (balloc_logged hsb)).mono
  rintro a s' l (⟨rfl, -, rfl, rfl⟩ | ⟨h0, s₁, ⟨hinode, hl⟩, rfl⟩)
  · exact ⟨.of_eq rfl, fun _ => rfl, fun b hb => (List.not_mem_nil hb).elim⟩
  · split
    · next ha => exact ⟨.of_eq hinode, fun hf => absurd ha hf, hl⟩
    · rw [Filed, Files.setAddr_inode_self, ← hinode]
      refine ⟨fun j hj => Function.update_of_ne ?_ _ _, fun _ => Function.update_self .., hl⟩
      rintro rfl
      rw [hinode] at hj
      exact hj h0

/-- `bmap` in the indirect block logs this block besides. -/
theorem bmapEntry_logged (hsb : sb.size ≤ bpb) (addr : UInt32) (j : Nat) :
    Returns (bmapEntry sb addr j) (fun a s' l => s'.inode = s.inode ∧
      ∀ b, .logWrite b ∈ l → b = sb.bmapstart ∨ b = a.toNat ∨ b = addr.toNat) s := by
  apply (Files.bmapEntry_of_balloc addr j (balloc_logged hsb)).mono
  rintro a s' l (⟨rfl, -, rfl, rfl⟩ | ⟨-, s₁, l₁, ⟨hinode, hl⟩, rfl, rfl⟩)
  · exact ⟨rfl, fun b hb => (List.not_mem_nil hb).elim⟩
  · refine ⟨?_, fun b hb => ?_⟩
    · split
      · exact hinode
      · exact hinode
    · rcases List.mem_append.mp hb with hb | hb
      · exact (hl b hb).imp_right Or.inl
      · split at hb
        · exact (List.not_mem_nil hb).elim
        · exact .inr (.inr (by simpa using hb))

/-- `bmap` logs the bitmap, the block it returns, and the indirect block. -/
theorem bmap_logged (hsb : sb.size ≤ bpb) {bn : Nat} (hbn : bn < maxfile) :
    Returns (bmap sb ip bn) (fun a s' l => Filed ip s s' ∧
      ∀ b, .logWrite b ∈ l → b = sb.bmapstart ∨ b = a.toNat ∨ s'.IsIndirect ip b) s := by
  unfold bmap
  split
  · apply (bmapSlot_logged hsb _).mono
    rintro a s₁ l ⟨hfiled, -, hl⟩
    exact ⟨hfiled, fun b hb => (hl b hb).imp_right Or.inl⟩
  · rw [if_pos (by unfold maxfile at hbn; omega)]
    apply Returns.seq
    apply (bmapSlot_logged hsb _).mono
    rintro addr s₁ l ⟨hfiled, haddr, hl⟩
    split
    · next h0 =>
        subst h0
        refine .ret ⟨hfiled, fun b hb => ?_⟩
        rw [List.append_nil] at hb
        exact (hl b hb).imp_right Or.inl
    · next h0 =>
        have hind : s₁.IsIndirect ip addr.toNat := by
          unfold Files.IsIndirect
          rw [haddr h0]
          exact ⟨h0, rfl⟩
        apply (bmapEntry_logged hsb addr _).mono
        rintro a s₂ l₂ ⟨hinode, hl₂⟩
        have hind₂ := hind.filed (.of_eq hinode)
        refine ⟨hfiled.trans (.of_eq hinode), fun b hb => ?_⟩
        rcases List.mem_append.mp hb with hb | hb
        · rcases hl b hb with h | rfl
          · exact .inl h
          · exact .inr (.inr hind₂)
        · rcases hl₂ b hb with h | h | rfl
          · exact .inl h
          · exact .inr (.inl h)
          · exact .inr (.inr hind₂)

/-- **The loop of `writei`** logs one more block in each turn, beside the bitmap and the indirect block. It
takes `d` turns when `d` blocks of the file reach to the end of the write. -/
theorem writeLoop_logged (hsb : sb.size ≤ bpb) (n d : Nat) : ∀ {s : Files} {tot off : Nat},
    (tot < n → off + (n - tot) ≤ (off / bsize + d) * bsize ∧ off + (n - tot) ≤ maxfile * bsize) →
    Returns (writeLoop sb ip src n tot off) (fun _ s' l => Filed ip s s' ∧ ∃ D : Finset Nat, D.card ≤ d ∧
      ∀ b, .logWrite b ∈ l → b = sb.bmapstart ∨ b ∈ D ∨ s'.IsIndirect ip b) s := by
  induction d with
  | zero =>
    intro s tot off hfit
    unfold writeLoop
    have hdone : ¬ tot < n := by
      intro hlt
      have := (hfit hlt).1
      unfold bsize at this
      omega
    rw [dif_neg hdone]
    exact .ret ⟨.of_eq rfl, ∅, le_rfl, fun b hb => (List.not_mem_nil hb).elim⟩
  | succ d ih =>
    intro s tot off hfit
    unfold writeLoop
    split
    · next hlt =>
        obtain ⟨hspan, hmax⟩ := hfit hlt
        apply Returns.seq
        apply (bmap_logged hsb (show off / bsize < maxfile by unfold maxfile bsize at *; omega)).mono
        rintro a s₁ l ⟨hfiled, hl⟩
        -- the turn logs the block that `bmap` returns and what `bmap` logs; then come the other turns
        have hturn : ∀ {s₂ : Files} {D : Finset Nat} {l' : List FilesEvent}, D.card ≤ d → Filed ip s₁ s₂ →
            (∀ b, .logWrite b ∈ l' → b = sb.bmapstart ∨ b ∈ insert a.toNat D ∨ s₂.IsIndirect ip b) →
            Filed ip s s₂ ∧ ∃ D : Finset Nat, D.card ≤ d + 1 ∧
              ∀ b, .logWrite b ∈ l ++ l' → b = sb.bmapstart ∨ b ∈ D ∨ s₂.IsIndirect ip b := by
          intro s₂ D l' hD hfiled₂ hl'
          refine ⟨hfiled.trans hfiled₂, insert a.toNat D,
            (card_insert_le _ _).trans (Nat.succ_le_succ hD), fun b hb => ?_⟩
          rcases List.mem_append.mp hb with hb | hb
          · rcases hl b hb with h | rfl | h
            · exact .inl h
            · exact .inr (.inl (mem_insert_self _ _))
            · exact .inr (.inr (h.filed hfiled₂))
          · exact hl' b hb
        split
        · exact .ret (hturn (D := ∅) (Nat.zero_le d) (.of_eq rfl) fun b hb => (List.not_mem_nil hb).elim)
        · apply Returns.seq_get
          dsimp only
          split
          · apply Returns.seq_update
            exact .ret (hturn (D := ∅) (Nat.zero_le d) (.of_eq rfl) fun b hb => (List.not_mem_nil hb).elim)
          · apply Returns.seq
            refine ⟨_, _, [.logWrite a.toNat], rfl, (ih ?_).mono ?_⟩
            · intro hlt'
              unfold bsize at *
              omega
            · rintro _ s₂ l₂ ⟨hfiled₂, D, hD, hl₂⟩
              refine hturn hD hfiled₂ fun b hb => ?_
              rcases List.mem_cons.mp hb with hb | hb
              · cases hb
                exact .inr (.inl (mem_insert_self _ _))
              · rcases hl₂ b hb with h | h | h
                · exact .inl h
                · exact .inr (.inl (mem_insert_of_mem h))
                · exact .inr (.inr h)
    · exact .ret ⟨.of_eq rfl, ∅, Nat.zero_le _, fun b hb => (List.not_mem_nil hb).elim⟩

/-- **`writei`** of a chunk returns, and logs at most `MAXOPBLOCKS` blocks. -/
theorem writei_logged (hsb : sb.size ≤ bpb) (off : UInt32) {n : UInt32} (hn : n.toNat ≤ maxChunk) :
    Returns (writei sb ip src off n) (fun _ _ l => (loggedBlocks l).card ≤ maxOpBlocks) s := by
  unfold writei
  apply Returns.seq_get
  dsimp only
  split
  · exact .ret (Nat.zero_le _)
  next hoff =>
  split
  · exact .ret (Nat.zero_le _)
  next hmax =>
  have hsum : (off + n).toNat = off.toNat + n.toNat := by
    have hge : off.toNat ≤ (off + n).toNat := UInt32.le_iff_toNat_le.mp (UInt32.not_lt.mp fun hf => hoff (.inr hf))
    have := off.toNat_lt
    have := n.toNat_lt
    rw [UInt32.toNat_add] at hge ⊢
    omega
  apply Returns.seq
  apply (writeLoop_logged hsb n.toNat 4 ?_).mono
  · rintro ⟨tot, off'⟩ s₁ l ⟨-, D, hD, hl⟩
    have hend : ∀ b₀, (loggedBlocks (l ++ [.logWrite b₀])).card ≤ maxOpBlocks := by
      intro b₀
      obtain ⟨i, hi⟩ : ∃ i, i = ((s₁.inode ip).addrs (Fin.last ndirect)).toNat := ⟨_, rfl⟩
      have hsub : loggedBlocks (l ++ [.logWrite b₀]) ⊆ {b₀, sb.bmapstart, i} ∪ D := by
        intro b hb
        simp only [mem_union, mem_insert, mem_singleton]
        rcases List.mem_append.mp (mem_loggedBlocks.mp hb) with hb | hb
        · rcases hl b hb with h | h | h
          · exact .inl (.inr (.inl h))
          · exact .inr h
          · exact .inl (.inr (.inr (h.2.trans hi.symm)))
        · cases List.mem_singleton.mp hb
          exact .inl (.inl rfl)
      have h₁ := (card_le_card hsub).trans (card_union_le _ _)
      have h₂ : ({b₀, sb.bmapstart, i} : Finset Nat).card ≤ 3 := card_le_three
      unfold maxOpBlocks
      omega
    dsimp only
    split
    · exact ⟨_, _, _, rfl, hend _⟩
    · exact ⟨_, _, _, rfl, hend _⟩
  · intro _
    unfold maxChunk maxOpBlocks bsize at *
    omega

/-! ## Whole writes -/

/-- **One transaction** of `filewrite` logs at most `MAXOPBLOCKS` blocks. -/
theorem writeChunk_logged (hsb : sb.size ≤ bpb) {n : Nat} (hn : n ≤ maxChunk) (w : Writing) :
    match writeChunk sb ip src n w with
    | .error e => e = .ilock ∨ e = .ilockNoType
    | .ok (_, _, l) => (loggedBlocks l).card ≤ maxOpBlocks := by
  have hval : (UInt32.ofNat n).toNat = n := by
    rw [UInt32.toNat_ofNat', Nat.mod_eq_of_lt (lt_of_le_of_lt hn (by decide))]
  -- `ilock` logs nothing
  have hlock : (∃ e, ilock sb ip w.files = .error e ∧ (e = .ilock ∨ e = .ilockNoType)) ∨
      ∃ s₁, ilock sb ip w.files = .ok ((), s₁, []) := by
    unfold ilock
    rw [get_bind_apply]
    split
    · exact .inl ⟨_, rfl, .inl rfl⟩
    · split
      · dsimp only
        rw [modify_bind_apply]
        split
        · exact .inl ⟨_, rfl, .inr rfl⟩
        · exact .inr ⟨_, rfl⟩
      · exact .inr ⟨_, rfl⟩
  unfold writeChunk
  rcases hlock with ⟨e, hrun, he⟩ | ⟨s₁, hrun⟩
  · rw [bind_of_error hrun]
    exact he
  · obtain ⟨r, s₂, l, hwrite, hl⟩ :
        Returns (writei sb ip src w.off (UInt32.ofNat n)) (fun _ _ l => (loggedBlocks l).card ≤ maxOpBlocks) s₁ :=
      writei_logged hsb w.off (by rw [hval]; exact hn)
    rw [bind_run hrun hwrite]
    exact hl

/-- Every transaction of the loop is one of these. -/
theorem filewriteLoop_logged (hsb : sb.size ≤ bpb) (others : Nat → Writing → Writing) (n i : Nat) (w : Writing) :
    (∀ l ∈ (filewriteLoop sb ip src others n i w).2, (loggedBlocks l).card ≤ maxOpBlocks) ∧
    ∀ e, (filewriteLoop sb ip src others n i w).1 = .error e → e = .ilock ∨ e = .ilockNoType := by
  have hturn := fun i w => @writeChunk_logged sb ip (fun j => src (i + j)) hsb _
    (Nat.min_le_right (n - i) _) (others i w)
  fun_induction filewriteLoop sb ip src others n i w with
  | case1 i w hi n₁ e hrun =>
    have hchunk := hturn i w
    rw [hrun] at hchunk
    refine ⟨fun l hl => (List.not_mem_nil hl).elim, fun e' he => ?_⟩
    cases he
    exact hchunk
  | case2 i w hi n₁ r w₁ l hrun hr =>
    have hchunk := hturn i w
    rw [hrun] at hchunk
    refine ⟨fun l' hl => ?_, fun e he => by cases he⟩
    rw [List.mem_singleton.mp hl]
    exact hchunk
  | case3 i w hi n₁ r w₁ l hrun hr res ls hrest ih =>
    have hchunk := hturn i w
    rw [hrun] at hchunk
    rw [hrest] at ih
    refine ⟨fun l' hl => ?_, ih.2⟩
    rcases List.mem_cons.mp hl with rfl | hl
    · exact hchunk
    · exact ih.1 l' hl
  | case4 i w hi => exact ⟨fun l hl => (List.not_mem_nil hl).elim, fun e he => by cases he⟩

/-- **Each chunk fits a transaction**: when the bitmap is one block, every section of `filewrite` logs at most
`MAXOPBLOCKS` blocks, for every inode, offset and buffer and whatever others do between the sections; and
`filewrite` panics only where `ilock` does, before anything is logged. -/
theorem filewrite_fits_log (hsb : sb.size ≤ bpb) (others : Nat → Writing → Writing) (n : Int32) (w : Writing) :
    (∀ l ∈ (filewrite sb ip src others n w).2, (loggedBlocks l).card ≤ maxOpBlocks) ∧
    ∀ e, (filewrite sb ip src others n w).1 = .error e → e = .ilock ∨ e = .ilockNoType := by
  unfold filewrite
  split
  · exact ⟨fun l hl => (List.not_mem_nil hl).elim, fun e he => by cases he⟩
  · exact filewriteLoop_logged hsb others _ 0 w

/-- Two chunks are written to an empty file on a disk with free blocks. -/
theorem filewrite_fits_log_small : ∃ ls : List (List FilesEvent),
    (filewrite smallDisk 0 (fun _ => some 7) (fun _ w => w) 5000 ⟨smallImage.opened partBitmap, 0⟩).2 = ls ∧
      ls.map (fun l => (loggedBlocks l).card) = [5, 4] ∧ ∀ l ∈ ls, (loggedBlocks l).card ≤ maxOpBlocks :=
  ⟨_, rfl, by decide +kernel, (filewrite_fits_log (by decide) _ _ _).1⟩

end Xv6
