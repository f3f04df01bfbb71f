import Xv6.Fs.FileBytes

/-!
# Writes from user memory that stop early

`writei` copies one block after the other from user memory into the buffer of the block. A copy that
runs into a page that is not mapped fails, after it has changed the buffer up to there: the buffer is
released without being logged, and `writei` reports only the blocks before. The change stays in the
buffer cache, where `readi` finds it.
-/

namespace Xv6

open TraceM

variable {sb : Superblock} {s s' : Files} {k : InodeId} {src : Nat → Option UInt8}

/-! ## What is read later -/

/-- Every later `readi` gives what the array `f` holds. -/
def Seen (sb : Superblock) (s : Files) (k : InodeId) (f : ByteArr) : Prop :=
  ∀ off n, ∃ r bytes, readi sb k (fun _ => true) off n s = .ok ((r, bytes), s, []) ∧
    f.Step (.readi off n, .read r bytes) f

/-- Reads see the array that agrees with the file in every byte. -/
theorem seen_iff (h : FileOk sb s k) {f : ByteArr} (hf : f.size = (s.file k).size) :
    Seen sb s k f ↔ ∀ x, x < f.size → s.byteAt k x = f.byte x := by
  constructor
  · intro hseen x hx
    have hbig : maxfile * bsize < 2 ^ 32 := by decide
    have hsize : (s.file k).size ≤ maxfile * bsize := h.size
    have hxoff : (UInt32.ofNat x).toNat = x := by
      rw [UInt32.toNat_ofNat', Nat.mod_eq_of_lt (by omega)]
    have hone : (1 : UInt32).toNat = 1 := rfl
    obtain ⟨r, bytes, hrun, -, -, hbytes⟩ := hseen (UInt32.ofNat x) 1
    obtain ⟨r', bytes', hrun', -, -, hbytes'⟩ := readi_file h.mapped (UInt32.ofNat x) 1
    rw [hrun] at hrun'
    cases hrun'
    rw [hxoff, hone, if_neg (by omega), Nat.min_eq_left (by omega)] at hbytes hbytes'
    rw [hbytes] at hbytes'
    have hhead : f.byte (x + 0) = (s.file k).byte (x + 0) := (List.cons.inj hbytes').1
    exact hhead.symm
  · intro hall off n
    obtain ⟨r, bytes, hrun, -, hr, hbytes⟩ := readi_file h.mapped off n
    refine ⟨r, bytes, hrun, rfl, hr, ?_⟩
    rw [hbytes, hf]
    split
    · rfl
    · apply List.map_congr_left
      intro i hi
      rw [List.mem_range] at hi
      exact hall _ (by omega)

/-- The file as it should be after a write of `tot` bytes was reported. -/
def Files.written (s : Files) (k : InodeId) (src : Nat → Option UInt8) (off tot : Nat) : ByteArr where
  size := max (s.inode k).size.toNat (off + tot)
  byte x := if off ≤ x ∧ x < off + tot then bufferByte src (x - off) else s.byteAt k x

/-- **A failed copy does no harm**: if `u` is the first byte of the buffer that is not mapped, those before
it that go to the same block of the file, below its size, are what the file already holds. -/
def Harmless (s : Files) (k : InodeId) (src : Nat → Option UInt8) (off n : Nat) : Prop :=
  ∀ u, u < n → src u = none → (∀ i, i < u → (src i).isSome) → ∀ i, i < u →
    (off + i) / bsize = (off + u) / bsize → off + i < (s.inode k).size.toNat →
    bufferByte src i = s.byteAt k (off + i)

/-- The loop stops at the start of a block: a byte before is in another block than one from there on. -/
theorem Ended.before {off n tot e i u : Nat} (h : Ended s k src off n tot e) (htot : tot < n)
    (hi : i < tot) (hu : tot ≤ u) : (off + i) / bsize ≠ (off + u) / bsize := by
  have hmod : (off + tot) % bsize = 0 := (h.start htot).resolve_left (by omega)
  have hdiv := Nat.div_add_mod (off + tot) bsize
  have hlt : (off + i) / bsize < (off + tot) / bsize :=
    (Nat.div_lt_iff_lt_mul (by decide)).mpr (by rw [Nat.mul_comm]; omega)
  have hle : (off + tot) / bsize ≤ (off + u) / bsize := Nat.div_le_div_right (by omega)
  omega

/-- The bytes that were stored and not reported, against what was there. -/
theorem Ended.harmless_iff {off n tot e : Nat} (h : Ended s k src off n tot e) (hok : FileOk sb s k) :
    Harmless s k src off n ↔ ∀ i, tot ≤ i → i < e → off + i < (s.inode k).size.toNat →
      bufferByte src i = s.byteAt k (off + i) := by
  constructor
  · intro hharm i hlo hhi hsize
    obtain ⟨hen, hnone, hblock⟩ := h.spill (by omega)
    refine hharm e hen hnone h.mapped i hhi ?_ hsize
    have hlow : (off + tot) / bsize ≤ (off + i) / bsize := Nat.div_le_div_right (by omega)
    have hhigh : (off + i) / bsize ≤ (off + e) / bsize := Nat.div_le_div_right (by omega)
    omega
  · intro hall u hun hnone hsome i hi hblock hsize
    -- the first byte that is not mapped is not among those stored
    have hue : e ≤ u := by
      by_contra hlt
      have := h.mapped u (by omega)
      rw [hnone] at this
      cases this
    have htn : tot < n := lt_of_le_of_lt (h.le.trans hue) hun
    have hti : tot ≤ i := by
      by_contra hlt
      exact h.before htn (by omega) (h.le.trans hue) hblock
    by_cases hspill : tot < e
    · obtain ⟨hen, henone, -⟩ := h.spill hspill
      have heu : u ≤ e := by
        by_contra hlt
        have := hsome e (by omega)
        rw [henone] at this
        cases this
      exact hall i hti (by omega) hsize
    · have he : e = tot := Nat.le_antisymm (Nat.not_lt.mp hspill) h.le
      rcases h.why htn he with hstop | hmiss
      · -- the copy failed at once
        have := hsome tot (by omega)
        rw [hstop] at this
        cases this
      · -- the file ends before the block
        have hlow : (off + tot) / bsize ≤ (off + i) / bsize := Nat.div_le_div_right (by omega)
        exact absurd hmiss (hok.mapped _ (by omega))

/-- **A short write changes only what it reports precisely if a failed copy does no harm.** `writei` of
any part of a user buffer to a sound file returns; if it reports `tot` bytes, the later reads see these
and every other byte of the file as it was if and only if the bytes that a failed copy left in the
buffer cache are those that the file held. -/
theorem short_write_iff (h : FileOk sb s k) (src : Nat → Option UInt8) (off n : UInt32) :
    Returns (writei sb k src off n) (fun r s' _ => ∀ tot : Nat, r = tot →
      (∀ i, i < tot → (src i).isSome) ∧
      (Seen sb s' k (s.written k src off.toNat tot) ↔ Harmless s k src off.toNat n.toNat)) s := by
  apply (writei_user h src off n).mono
  rintro r s' l (⟨rfl, -⟩ | ⟨tot, e, rfl, hoff, -, hend, ⟨hok, -, hsize, hbyte⟩, -⟩) t ht
  · omega
  · obtain rfl : tot = t := by exact_mod_cast ht
    refine ⟨fun i hi => hend.mapped i (lt_of_lt_of_le hi hend.le), ?_⟩
    rw [seen_iff hok (f := s.written k src off.toNat tot) hsize.symm, hend.harmless_iff h]
    constructor
    · intro hseen i hlo hhi hlt
      have hx := hseen (off.toNat + i) (lt_of_lt_of_le hlt (Nat.le_max_left ..))
      rw [hbyte, if_pos (by omega), Nat.add_sub_cancel_left] at hx
      exact hx.trans (if_neg (by omega))
    · intro hall x hx
      have hx : x < max (s.inode k).size.toNat (off.toNat + tot) := hx
      rw [hbyte]
      show _ = if off.toNat ≤ x ∧ x < off.toNat + tot then _ else _
      by_cases hin : off.toNat ≤ x ∧ x < off.toNat + tot
      · rw [if_pos hin, if_pos ⟨hin.1, lt_of_lt_of_le hin.2 (Nat.add_le_add_left hend.le _)⟩]
      · rw [if_neg hin]
        split
        · next hspill =>
            have hold := hall (x - off.toNat) (by omega) (by omega) (by omega)
            rwa [Nat.add_sub_cancel' hspill.1] at hold
        · rfl

/-! ## A byte that was not reported -/

/-- A file of one byte, a zero. -/
@[irreducible] def oneByte : Files := (writei smallDisk 0 (fun _ => some 0) 0 1).after emptyFile

theorem oneByte_ok : FileOk smallDisk oneByte 0 := by
  obtain ⟨r, s, l, hrun, hok, -⟩ := writei_file emptyFile_ok (fun _ => 0) 0 1
  have hs : oneByte = s := by
    unfold oneByte TraceM.after
    rw [hrun]
  rw [hs]
  exact hok

/-- A buffer of one byte at the end of a page, before one that is not mapped. -/
def lastByte (b : UInt8) (i : Nat) : Option UInt8 := if i = 0 then some b else none

/-- A write of two bytes over the one byte of a file, from a buffer of which only the first byte is
mapped: it reports no byte, and the byte of the file is changed. -/
theorem short_write_leaks : ∃ s s' l, FileOk smallDisk s 0 ∧
    writei smallDisk 0 (lastByte 7) 0 2 s = .ok (0, s', l) ∧ s.byteAt 0 0 = 0 ∧ s'.byteAt 0 0 = 7 ∧
    ¬ Seen smallDisk s' 0 (s.written 0 (lastByte 7) 0 0) := by
  have hruns : oneByte.byteAt 0 0 = 0 ∧ Returns (writei smallDisk 0 (lastByte 7) 0 2)
      (fun r s' _ => r = 0 ∧ s'.byteAt 0 0 = 7 ∧
        Returns (readi smallDisk 0 (fun _ => true) 0 1) (fun x _ _ => x.2 = [7]) s') oneByte := by
    decide +kernel
  obtain ⟨hzero, _, s', l, hrun, rfl, hseven, _, _, _, hread, hbytes⟩ := hruns
  refine ⟨oneByte, s', l, oneByte_ok, hrun, hzero, hseven, fun hseen => ?_⟩
  obtain ⟨_, _, hread', -, -, hf⟩ := hseen 0 1
  rw [hread] at hread'
  cases hread'
  exact absurd (hbytes.symm.trans hf) (by decide +kernel)

/-- A short write that does no harm: the byte before the one that is not mapped is what the file holds. -/
theorem short_write_iff_same : Returns (writei smallDisk 0 (lastByte 0) 0 2)
    (fun r s' _ => r = 0 ∧ Seen smallDisk s' 0 (oneByte.written 0 (lastByte 0) 0 0)) oneByte := by
  have hruns : (oneByte.inode 0).size.toNat = 1 ∧ bufferByte (lastByte 0) 0 = oneByte.byteAt 0 0 ∧
      Returns (writei smallDisk 0 (lastByte 0) 0 2) (fun r _ _ => r = 0) oneByte := by
    decide +kernel
  obtain ⟨hsize, hbyte, hzero⟩ := hruns
  apply (hzero.and (short_write_iff oneByte_ok (lastByte 0) 0 2)).mono
  rintro r s' l ⟨rfl, h⟩
  refine ⟨rfl, (h 0 rfl).2.mpr fun u _ _ _ i _ _ hi => ?_⟩
  obtain rfl : i = 0 := by
    rw [hsize] at hi
    exact Nat.lt_one_iff.mp (lt_of_le_of_lt (Nat.le_add_left ..) hi)
  exact hbyte

end Xv6
