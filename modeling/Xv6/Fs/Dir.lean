import Xv6.Fs.FileBytes

/-!
# `kernel/fs.c`: directories

A directory is a file of `struct dirent`s. `dirlookup` reads them one after the other and stops at the
first one that is in use and has the name it looks for. Names are strings of at most `DIRSIZ` bytes;
one that is shorter is filled up with zeros.
-/

namespace Xv6

open TraceM List

/-- `DIRSIZ`. -/
abbrev dirsiz : Nat := 14

/-- `T_DIR`. -/
abbrev tDir : Int16 := 1

/-! ## Strings

A string is the list of its bytes; its end counts as a zero byte. -/

/-- `strncmp`. -/
def strncmp : Nat → List UInt8 → List UInt8 → Int
  | 0, _, _ => 0
  | n + 1, p, q =>
    if p.headD 0 ≠ 0 ∧ p.headD 0 = q.headD 0 then strncmp n p.tail q.tail
    else (p.headD 0).toNat - (q.headD 0).toNat

/-- `strncpy`: the bytes that are written. -/
def strncpy (name : List UInt8) (n : Nat) : List UInt8 :=
  name.take n ++ List.replicate (n - name.length) 0

/-- What counts of a string in a field of `n` bytes. -/
def field (n : Nat) (p : List UInt8) : List UInt8 := (p.take n).takeWhile (· ≠ 0)

theorem field_succ (n : Nat) (p : List UInt8) :
    field (n + 1) p = if p.headD 0 = 0 then [] else p.headD 0 :: field n p.tail := by
  cases p with
  | nil => rfl
  | cons a p =>
    unfold field
    by_cases ha : a = 0
    · simp [ha]
    · simp [ha]

/-- **`strncmp`** compares what counts. -/
theorem strncmp_eq_zero (n : Nat) : ∀ p q, strncmp n p q = 0 ↔ field n p = field n q := by
  induction n with
  | zero => exact fun p q => ⟨fun _ => rfl, fun _ => rfl⟩
  | succ n ih =>
    intro p q
    rw [strncmp, field_succ, field_succ]
    generalize p.headD 0 = a
    generalize q.headD 0 = b
    by_cases hab : a = b
    · subst hab
      by_cases ha : a = 0
      · simp [ha]
      · rw [if_pos ⟨ha, rfl⟩, if_neg ha, if_neg ha, ih]
        simp
    · rw [if_neg fun h => hab h.2]
      have hne : a.toNat ≠ b.toNat := fun h => hab (UInt8.toNat_inj.mp h)
      constructor
      · intro h
        omega
      · intro h
        split at h
        · next ha =>
            split at h
            · next hb => exact absurd (ha.trans hb.symm) hab
            · cases h
        · split at h
          · cases h
          · injection h with h
            exact absurd h hab

/-- A name without zeros that fits is all there is in its field. -/
theorem field_strncpy {name : List UInt8} {n : Nat} (hlen : name.length ≤ n) (hz : 0 ∉ name) :
    field n (strncpy name n) = name := by
  have hpos : ∀ a ∈ name, decide (a ≠ 0) = true := by
    intro a ha
    exact decide_eq_true fun h0 => hz (h0 ▸ ha)
  unfold field strncpy
  rw [take_of_length_le hlen, take_of_length_le (by simp; omega),
    takeWhile_append_of_pos hpos]
  cases n - name.length with
  | zero => simp
  | succ m => simp [replicate_succ]

theorem field_self {name : List UInt8} {n : Nat} (hlen : name.length ≤ n) (hz : 0 ∉ name) :
    field n name = name := by
  unfold field
  rw [take_of_length_le hlen, takeWhile_eq_self_iff]
  intro a ha
  exact decide_eq_true fun h0 => hz (h0 ▸ ha)

theorem strncpy_length (name : List UInt8) (n : Nat) : (strncpy name n).length = n := by
  unfold strncpy
  rw [length_append, length_take, length_replicate]
  omega

/-! ## Entries -/

/-- `struct dirent`. -/
structure Dirent where
  inum : UInt16
  name : List UInt8

namespace Dirent

/-- `sizeof(struct dirent)`. -/
abbrev size : Nat := 2 + dirsiz

def toBytes (de : Dirent) : List UInt8 :=
  UInt8.ofNat de.inum.toNat :: UInt8.ofNat (de.inum.toNat / 256) :: de.name

def ofBytes (l : List UInt8) : Dirent :=
  ⟨UInt16.ofNat ((l.getD 0 0).toNat + (l.getD 1 0).toNat * 256), l.drop 2⟩

/-- An entry is read back as it was written. -/
theorem ofBytes_toBytes (de : Dirent) : ofBytes de.toBytes = de := by
  have hinum : UInt16.ofNat (de.inum.toNat % 256 + de.inum.toNat / 256 % 256 * 256) = de.inum := by
    apply UInt16.toNat_inj.mp
    have := de.inum.toNat_lt
    rw [UInt16.toNat_ofNat']
    omega
  unfold ofBytes toBytes
  simp only [getD_cons_zero, getD_cons_succ, UInt8.toNat_ofNat', drop_succ_cons,
    drop_zero]
  rw [show 2 ^ 8 = 256 from rfl, hinum]

end Dirent

/-! ## `dirlookup` -/

/-- `namecmp`. -/
def namecmp (s t : List UInt8) : Int := strncmp dirsiz s t

variable (sb : Superblock)

/-- The loop of `dirlookup`; `size` is `dp->size`. -/
def dirlookupLoop (dp : InodeId) (name : List UInt8) (size off : Nat) :
    FilesM (Option (InodeId × Nat)) :=
  if _h : off < size then do
    let (r, bytes) ← readi sb dp (fun _ => true) (UInt32.ofNat off) (UInt32.ofNat Dirent.size)
    if r ≠ Dirent.size then throw .dirlookupRead
    let de := Dirent.ofBytes bytes
    if de.inum ≠ 0 ∧ namecmp name de.name = 0 then
      let ip ← iget de.inum.toNat
      return some (ip, off)
    else dirlookupLoop dp name size (off + Dirent.size)
  else return none
termination_by size - off
decreasing_by
  unfold Dirent.size dirsiz
  omega

/-- `dirlookup`: the inode, and the offset of its entry for `*poff`. -/
def dirlookup (dp : InodeId) (name : List UInt8) : FilesM (Option (InodeId × Nat)) := do
  let ip := (← get).inode dp
  if ip.type ≠ tDir then throw .dirlookupNotDir
  dirlookupLoop sb dp name ip.size.toNat 0

/-! ## What it finds -/

variable {sb} {s : Files} {dp : InodeId} {name : List UInt8}

/-- The entry at an index of a directory. -/
def Files.dirent (s : Files) (dp : InodeId) (i : Nat) : Dirent :=
  .ofBytes (s.bytes dp (Dirent.size * i) Dirent.size)

/-- An entry that is in use and has a name. -/
def Dirent.Matches (name : List UInt8) (de : Dirent) : Prop := de.inum ≠ 0 ∧ namecmp name de.name = 0

instance (name : List UInt8) (de : Dirent) : Decidable (de.Matches name) :=
  inferInstanceAs (Decidable (_ ∧ _))

/-- A directory with `n` entries, all of whose blocks are there. -/
structure IsDir (s : Files) (dp : InodeId) (n : Nat) : Prop where
  type : (s.inode dp).type = tDir
  size : (s.inode dp).size.toNat = Dirent.size * n
  mapped : ∀ x, x < (s.inode dp).size.toNat → s.fileBlock dp (x / bsize) ≠ 0

/-- Reading one entry. -/
theorem IsDir.readi {n : Nat} (h : IsDir s dp n) {i : Nat} (hi : i < n) :
    readi sb dp (fun _ => true) (UInt32.ofNat (Dirent.size * i)) (UInt32.ofNat Dirent.size) s =
      .ok (((Dirent.size : Nat), s.bytes dp (Dirent.size * i) Dirent.size), s, []) := by
  have hsize := h.size
  have hlt := (s.inode dp).size.toNat_lt
  obtain ⟨r, bytes, hrun, -, hr, hbytes⟩ : ∃ r bytes, Xv6.readi sb dp (fun _ => true) _ _ s = _ ∧ _ :=
    readi_file h.mapped (UInt32.ofNat (Dirent.size * i)) (UInt32.ofNat Dirent.size)
  have hoff : (UInt32.ofNat (Dirent.size * i)).toNat = Dirent.size * i := by
    rw [UInt32.toNat_ofNat', Nat.mod_eq_of_lt]
    unfold Dirent.size dirsiz at *
    omega
  have hcount : (UInt32.ofNat Dirent.size).toNat = Dirent.size := by decide
  have hfile : (s.file dp).size = Dirent.size * n := hsize
  rw [hoff, hcount, hfile, if_neg (by unfold Dirent.size dirsiz at *; omega),
    Nat.min_eq_left (by unfold Dirent.size dirsiz at *; omega)] at hbytes
  subst hbytes
  rw [hrun, hr, length_map, length_range]
  rfl

/-- **The first matching entry** is the one that is found. -/
theorem dirlookupLoop_run {n i : Nat} (h : IsDir s dp n) (hi : i < n)
    (hmatch : (s.dirent dp i).Matches name) :
    ∀ d j, i - j = d → j ≤ i → (∀ j', j ≤ j' → j' < i → ¬ (s.dirent dp j').Matches name) →
    dirlookupLoop sb dp name (Dirent.size * n) (Dirent.size * j) s =
      (do let ip ← iget (s.dirent dp i).inum.toNat; return some (ip, Dirent.size * i)) s := by
  intro d
  induction d with
  | zero =>
    intro j hd hj _
    have hij : j = i := by omega
    subst hij
    rw [dirlookupLoop, dif_pos (by unfold Dirent.size dirsiz; omega), bind_of_ok (h.readi hi)]
    dsimp only
    rw [if_neg fun hf => hf rfl]
    exact congrFun (if_pos hmatch) s
  | succ d ih =>
    intro j hd hj hbefore
    rw [dirlookupLoop, dif_pos (by unfold Dirent.size dirsiz; omega),
      bind_of_ok (h.readi (by omega))]
    dsimp only
    rw [if_neg fun hf => hf rfl]
    refine (congrFun (if_neg (hbefore j (Nat.le_refl j) (by omega))) s).trans ?_
    exact ih (j + 1) (by omega) (by omega) fun j' hj' => hbefore j' (by omega)

/-- `dirlookup` finds the first entry that matches. -/
theorem dirlookup_run {n i : Nat} (h : IsDir s dp n) (hi : i < n)
    (hmatch : (s.dirent dp i).Matches name) (hbefore : ∀ j, j < i → ¬ (s.dirent dp j).Matches name) :
    dirlookup sb dp name s =
      (do let ip ← iget (s.dirent dp i).inum.toNat; return some (ip, Dirent.size * i)) s := by
  unfold dirlookup
  rw [get_bind_apply]
  dsimp only
  rw [if_neg fun hf => hf h.type, h.size]
  exact dirlookupLoop_run h hi hmatch i 0 rfl (Nat.zero_le i) fun j _ => hbefore j

end Xv6
