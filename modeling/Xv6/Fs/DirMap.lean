import Xv6.Fs.Dir

/-!
# Directories are finite maps

`dirlink` and the removal of an entry in `sys_unlink`, and what a directory is in the abstract: a map
from names, of which the first `DIRSIZ` bytes count, to inode numbers. An entry whose inode number is 0
is free, and `dirlink` uses the first free one again; it looks the name up before, so no two entries in
use have the same name, and the first match `dirlookup` finds is the only one.
-/

namespace Xv6

open TraceM Function Files Transition List

/-! ## The calls -/

section Calls

variable (sb : Superblock)

/-- The loop of `dirlink` that looks for a free entry: its offset, or the size. -/
def dirlinkLoop (dp : InodeId) (size off : Nat) : FilesM Nat :=
  if _h : off < size then do
    let (r, bytes) ← readi sb dp (fun _ => true) (UInt32.ofNat off) (UInt32.ofNat Dirent.size)
    if r ≠ Dirent.size then throw .dirlinkRead
    if (Dirent.ofBytes bytes).inum = 0 then return off
    else dirlinkLoop dp size (off + Dirent.size)
  else return off
termination_by size - off
decreasing_by
  unfold Dirent.size dirsiz
  omega

/-- `writei` of an entry, from kernel memory. -/
def writeDirent (dp : InodeId) (de : Dirent) (off : Nat) : FilesM Int :=
  writei sb dp (fun i => some (de.toBytes.getD i 0)) (UInt32.ofNat off) (UInt32.ofNat Dirent.size)

/-- `dirlink`. -/
def dirlink (dp : InodeId) (name : List UInt8) (inum : UInt32) : FilesM Int := do
  match ← dirlookup sb dp name with
  | some (ip, _) =>
    iput sb ip
    return -1
  | none =>
    let off ← dirlinkLoop sb dp ((← get).inode dp).size.toNat 0
    let de : Dirent := ⟨UInt16.ofNat inum.toNat, strncpy name dirsiz⟩
    if (← writeDirent sb dp de off) ≠ Dirent.size then return -1
    return 0

/-- An entry after `memset(&de, 0, sizeof(de))`. -/
def Dirent.zero : Dirent := ⟨0, List.replicate dirsiz 0⟩

/-- The part of `sys_unlink` that removes the entry of a name: the inode it named, if there is one. -/
def unlinkEntry (dp : InodeId) (name : List UInt8) : FilesM (Option InodeId) := do
  match ← dirlookup sb dp name with
  | none => return none
  | some (ip, off) =>
    if (← writeDirent sb dp .zero off) ≠ Dirent.size then throw .unlinkWritei
    return some ip

end Calls

variable {sb : Superblock} {s s' : Files} {dp : InodeId} {name : List UInt8} {n : Nat}

/-! ## Looking names up -/

/-- One turn of `dirlookup`. -/
theorem dirlookupLoop_step (h : IsDir s dp n) {j : Nat} (hj : j < n) :
    dirlookupLoop sb dp name (Dirent.size * n) (Dirent.size * j) s =
      if (s.dirent dp j).Matches name then
        (do let ip ← iget (s.dirent dp j).inum.toNat; return some (ip, Dirent.size * j)) s
      else dirlookupLoop sb dp name (Dirent.size * n) (Dirent.size * (j + 1)) s := by
  rw [dirlookupLoop, dif_pos (by unfold Dirent.size dirsiz; omega), bind_of_ok (h.readi hj)]
  dsimp only
  rw [if_neg fun hf => hf rfl]
  by_cases hm : (s.dirent dp j).Matches name
  · rw [if_pos hm]
    exact congrFun (if_pos hm) s
  · rw [if_neg hm]
    exact congrFun (if_neg hm) s

/-- Without a matching entry nothing is found. -/
theorem dirlookupLoop_none (h : IsDir s dp n) (hno : ∀ j, j < n → ¬ (s.dirent dp j).Matches name) :
    ∀ d j, n - j = d → j ≤ n →
    dirlookupLoop sb dp name (Dirent.size * n) (Dirent.size * j) s = .ok (none, s, []) := by
  intro d
  induction d with
  | zero =>
    intro j hd hj
    rw [dirlookupLoop, dif_neg (by unfold Dirent.size dirsiz; omega)]
    rfl
  | succ d ih =>
    intro j hd hj
    rw [dirlookupLoop_step h (by omega), if_neg (hno j (by omega))]
    exact ih (j + 1) (by omega) (by omega)

/-- `dirlookup` returns 0 if no entry matches. -/
theorem dirlookup_none (h : IsDir s dp n) (hno : ∀ j, j < n → ¬ (s.dirent dp j).Matches name) :
    dirlookup sb dp name s = .ok (none, s, []) := by
  unfold dirlookup
  rw [get_bind_apply]
  dsimp only
  rw [if_neg fun hf => hf h.type, h.size]
  exact dirlookupLoop_none h hno n 0 rfl (Nat.zero_le n)

/-- The loop of `dirlink` stops at the first free entry, or behind the last one. -/
theorem dirlinkLoop_run (h : IsDir s dp n) : ∀ d j, n - j = d → j ≤ n →
    ∃ i, i ≤ n ∧ (i < n → (s.dirent dp i).inum = 0) ∧
      dirlinkLoop sb dp (Dirent.size * n) (Dirent.size * j) s = .ok (Dirent.size * i, s, []) := by
  intro d
  induction d with
  | zero =>
    intro j hd hj
    have hjn : j = n := by omega
    subst hjn
    refine ⟨j, le_rfl, fun hlt => absurd hlt (lt_irrefl j), ?_⟩
    rw [dirlinkLoop, dif_neg (lt_irrefl _)]
    rfl
  | succ d ih =>
    intro j hd hj
    have hread := @IsDir.readi sb s dp n h j (show j < n by omega)
    rw [dirlinkLoop, dif_pos (by unfold Dirent.size dirsiz; omega), bind_of_ok hread]
    dsimp only
    rw [if_neg fun hf => hf rfl]
    by_cases h0 : (s.dirent dp j).inum = 0
    · exact ⟨j, hj, fun _ => h0, congrFun (if_pos h0) s⟩
    · obtain ⟨i, hi, hfree, hrun⟩ := ih (j + 1) (by omega) (by omega)
      exact ⟨i, hi, hfree, (congrFun (if_neg h0) s).trans hrun⟩

/-! ## Writing an entry -/

/-! ## The directory after a write -/

/-- A directory whose inode is in use. -/
structure DirOk (sb : Superblock) (s : Files) (dp : InodeId) (n : Nat) : Prop where
  file : FileOk sb s dp
  type : (s.inode dp).type = tDir
  size : (s.inode dp).size.toNat = Dirent.size * n
  ref : 0 < (s.inode dp).ref

theorem DirOk.isDir (h : DirOk sb s dp n) : IsDir s dp n := ⟨h.type, h.size, h.file.mapped⟩

theorem toBytes_getD (de : Dirent) (hde : de.name.length = dirsiz) :
    (List.range Dirent.size).map (fun i => de.toBytes.getD i 0) = de.toBytes := by
  have hlen : de.toBytes.length = Dirent.size := by
    unfold Dirent.toBytes Dirent.size
    rw [length_cons, length_cons, hde, Nat.add_comm 2]
  apply ext_getElem
  · rw [length_map, length_range, hlen]
  · intro i hi hi'
    rw [getElem_map, getElem_range, getD_eq_getElem?_getD, List.getElem?_eq_getElem hi']
    rfl

/-- The entries when the bytes of one of them are replaced. -/
theorem dirent_write {de : Dirent} {i : Nat} (hde : de.name.length = dirsiz)
    (hbyte : ∀ x, s'.byteAt dp x =
      if Dirent.size * i ≤ x ∧ x < Dirent.size * i + Dirent.size
      then de.toBytes.getD (x - Dirent.size * i) 0 else s.byteAt dp x) (j : Nat) :
    s'.dirent dp j = if j = i then de else s.dirent dp j := by
  unfold dirent bytes
  by_cases hj : j = i
  · subst hj
    rw [if_pos rfl]
    have hmap : (List.range Dirent.size).map (fun t => s'.byteAt dp (Dirent.size * j + t)) =
        (List.range Dirent.size).map (fun t => de.toBytes.getD t 0) := by
      apply map_congr_left
      intro t ht
      rw [mem_range] at ht
      rw [hbyte, if_pos (by omega), Nat.add_sub_cancel_left]
    rw [hmap, toBytes_getD de hde]
    exact Dirent.ofBytes_toBytes de
  · rw [if_neg hj]
    congr 1
    apply map_congr_left
    intro t ht
    rw [mem_range] at ht
    rw [hbyte, if_neg]
    unfold Dirent.size dirsiz at *
    omega

/-- **An entry is written**: it is there, the others are as before. -/
theorem writeDirent_run {de : Dirent} {i : Nat} (h : DirOk sb s dp n) (hi : i ≤ n)
    (hde : de.name.length = dirsiz) (hmax : Dirent.size * i + Dirent.size ≤ maxfile * bsize)
    (hroom : Returns (bmap sb dp (Dirent.size * i / bsize)) (fun a _ _ => a ≠ 0) s) :
    Returns (writeDirent sb dp de (Dirent.size * i)) (fun r s' _ => r = Dirent.size ∧
      DirOk sb s' dp (max n (i + 1)) ∧
      ∀ j, s'.dirent dp j = if j = i then de else s.dirent dp j) s := by
  have hbig : maxfile * bsize < 2 ^ 32 := by decide
  have hoff : (UInt32.ofNat (Dirent.size * i)).toNat = Dirent.size * i := by
    rw [UInt32.toNat_ofNat', Nat.mod_eq_of_lt (by omega)]
  have hcount : (UInt32.ofNat Dirent.size).toNat = Dirent.size := by decide
  have hsize := h.size
  have hin : Dirent.size * i ≤ Dirent.size * n := Nat.mul_le_mul_left _ hi
  have hmod : Dirent.size * i % bsize + Dirent.size ≤ bsize := by
    unfold Dirent.size dirsiz bsize
    omega
  have hall := @writei_one sb s dp (UInt32.ofNat (Dirent.size * i))
    (UInt32.ofNat Dirent.size) (fun t => de.toBytes.getD t 0) (by rw [hoff, hsize]; exact hin)
    (by rw [hoff, hcount]; exact hmax) (by rw [hcount]; decide) (by rw [hoff, hcount]; exact hmod)
    (by rw [hoff]; exact hroom)
  have hfile := writei_file h.file (fun t => de.toBytes.getD t 0) (UInt32.ofNat (Dirent.size * i))
    (UInt32.ofNat Dirent.size)
  apply (hall.and hfile).mono
  rintro r s' l ⟨hr, hok, hfix, hstep, -, -⟩
  rw [hcount] at hr
  obtain ⟨tot, -, htot, hsize', hbyte⟩ := hstep.stored
    (by rw [hoff]; exact hin.trans hsize.ge) (by rw [hoff, hcount]; exact hmax)
  obtain rfl : tot = Dirent.size := by
    have := htot.symm.trans hr
    exact_mod_cast this
  rw [hoff] at hsize' hbyte
  refine ⟨hr, ⟨hok, ?_, ?_, ?_⟩, dirent_write hde hbyte⟩
  · exact (congrArg (·.1) hfix).trans h.type
  · have hs' : (s'.inode dp).size.toNat = max (s.inode dp).size.toNat (Dirent.size * i + Dirent.size) :=
      hsize'
    rw [hs', hsize]
    unfold Dirent.size dirsiz
    omega
  · have href : (s'.inode dp).ref = (s.inode dp).ref := congrArg (·.2.2) hfix
    rw [href]
    exact h.ref

/-! ## `iget` and `iput` beside a directory -/

/-- The inode of the directory is the same but for its references, and so are the blocks. -/
theorem DirOk.congr (h : DirOk sb s dp n) (hblock : s'.block = s.block)
    (hinode : s'.inode dp = { s.inode dp with ref := (s'.inode dp).ref })
    (href : 0 < (s'.inode dp).ref) :
    DirOk sb s' dp n ∧ ∀ j, s'.dirent dp j = s.dirent dp j := by
  have hsize : (s'.inode dp).size = (s.inode dp).size := by rw [hinode]
  obtain ⟨hok, hfile, hbyte⟩ := h.file.blocks.of_block (by rw [hinode]) hblock
  refine ⟨⟨⟨hok, ?_, ?_⟩, ?_, ?_, href⟩, ?_⟩
  · rw [hinode]
    exact h.file.inum
  · intro x hx
    rw [hfile]
    exact h.file.mapped x (by rwa [hsize] at hx)
  · rw [hinode]
    exact h.type
  · rw [hsize]
    exact h.size
  · intro j
    unfold dirent bytes
    simp only [hbyte]

/-- The directory itself may get a reference, and is never replaced. -/
theorem Taken.dir {inum : Nat} {k : InodeId} (ht : Taken inum s k s') (h : DirOk sb s dp n) :
    DirOk sb s' dp n ∧ ∀ j, s'.dirent dp j = s.dirent dp j := by
  by_cases hk : dp = k
  · subst hk
    cases ht with
    | shared =>
      refine h.congr rfl ?_ ?_ <;> rw [show (s.setInode dp _).inode dp = _ from update_self ..]
      exact Nat.succ_pos _
    | fresh _ hfree => exact absurd hfree h.ref.ne'
  · have hsame : s'.inode dp = s.inode dp := by
      cases ht <;> exact update_of_ne hk ..
    refine h.congr ht.block ?_ ?_ <;> rw [hsame]
    exact h.ref

/-- `iput` of an entry that was just taken only drops the reference. -/
theorem Taken.iput {inum : Nat} {k : InodeId} (ht : Taken inum s k s') :
    Returns (iput sb k) (fun _ s'' _ => s''.block = s.block ∧
      ∀ t, 0 < (s.inode t).ref → s''.inode t = s.inode t) s' := by
  have hidle : ¬ ((s'.inode k).ref = 1 ∧ (s'.inode k).valid = true ∧ (s'.inode k).nlink = 0) := by
    rintro ⟨href, hvalid, -⟩
    cases ht with simp only [setInode, update_self] at href hvalid
    | shared hpos => omega
    | fresh => cases hvalid
  unfold Xv6.iput
  apply Returns.seq_get
  dsimp only
  rw [if_neg hidle]
  apply Returns.update
  refine ⟨ht.block, fun t hpos => ?_⟩
  by_cases htk : t = k
  · subst htk
    refine (update_self ..).trans ?_
    cases ht with
    | shared => rw [show (s.setInode t _).inode t = _ from update_self ..]; rfl
    | fresh _ hfree => exact absurd hfree hpos.ne'
  · refine (update_of_ne htk ..).trans ?_
    cases ht <;> exact update_of_ne htk ..

/-! ## The map of a directory -/

/-- What counts of a name. -/
def nameKey (name : List UInt8) : List UInt8 := field dirsiz name

theorem matches_iff {de : Dirent} : de.Matches name ↔ de.inum ≠ 0 ∧ nameKey name = nameKey de.name := by
  unfold Dirent.Matches namecmp
  rw [strncmp_eq_zero]
  rfl

/-- A name without zeros is stored so that it is found again. -/
theorem nameKey_strncpy (hz : 0 ∉ name) : nameKey (strncpy name dirsiz) = nameKey name := by
  unfold nameKey
  by_cases hlen : name.length ≤ dirsiz
  · rw [field_strncpy hlen hz, field_self hlen hz]
  · have hlong : strncpy name dirsiz = name.take dirsiz := by
      unfold strncpy
      rw [Nat.sub_eq_zero_of_le (by omega), replicate_zero, append_nil]
    rw [hlong]
    unfold field
    rw [take_take, Nat.min_self]

/-- A directory in the abstract. -/
abbrev DirMap := List UInt8 → Option UInt16

/-- **The entries in use are a map**: no two have the same name. -/
structure IsMap (sb : Superblock) (s : Files) (dp : InodeId) (n : Nat) (M : DirMap) : Prop where
  dir : DirOk sb s dp n
  unique : ∀ i j, i < n → j < n → (s.dirent dp i).inum ≠ 0 → (s.dirent dp j).inum ≠ 0 →
    nameKey (s.dirent dp i).name = nameKey (s.dirent dp j).name → i = j
  sound : ∀ i, i < n → (s.dirent dp i).inum ≠ 0 →
    M (nameKey (s.dirent dp i).name) = some (s.dirent dp i).inum
  complete : ∀ key v, M key = some v → ∃ i, i < n ∧ v ≠ 0 ∧ (s.dirent dp i).inum = v ∧
    nameKey (s.dirent dp i).name = key

variable {M : DirMap}

/-- An empty directory is the empty map. -/
theorem isMap_empty (h : DirOk sb s dp 0) : IsMap sb s dp 0 fun _ => none where
  dir := h
  unique i _ hi := absurd hi (Nat.not_lt_zero i)
  sound i hi := absurd hi (Nat.not_lt_zero i)
  complete _ _ hM := by cases hM

theorem IsMap.congr (h : IsMap sb s dp n M) (hdir : DirOk sb s' dp n)
    (he : ∀ j, s'.dirent dp j = s.dirent dp j) : IsMap sb s' dp n M where
  dir := hdir
  unique i j := by
    rw [he, he]
    exact h.unique i j
  sound i := by
    rw [he]
    exact h.sound i
  complete key v hM := by
    simp only [he]
    exact h.complete key v hM

/-- A name that is not in the map is not found. -/
theorem IsMap.dirlookup_absent (h : IsMap sb s dp n M) (hM : M (nameKey name) = none) :
    dirlookup sb dp name s = .ok (none, s, []) := by
  refine dirlookup_none h.dir.isDir fun j hj hm => ?_
  obtain ⟨hlive, hkey⟩ := matches_iff.mp hm
  rw [hkey, h.sound j hj hlive] at hM
  cases hM

/-- The entry of a name in the map is found. -/
theorem IsMap.dirlookup_present (h : IsMap sb s dp n M) {v : UInt16} (hM : M (nameKey name) = some v) :
    ∃ i, i < n ∧ (s.dirent dp i).inum = v ∧ v ≠ 0 ∧ nameKey (s.dirent dp i).name = nameKey name ∧
      dirlookup sb dp name s =
        (do let ip ← iget v.toNat; return some (ip, Dirent.size * i) : FilesM _) s := by
  obtain ⟨i, hi, hv, hinum, hkey⟩ := h.complete _ _ hM
  have hm : (s.dirent dp i).Matches name := matches_iff.mpr ⟨by rw [hinum]; exact hv, hkey.symm⟩
  refine ⟨i, hi, hinum, hv, hkey, ?_⟩
  rw [dirlookup_run h.dir.isDir hi hm, hinum]
  intro j hj hmj
  obtain ⟨hlive, hkeyj⟩ := matches_iff.mp hmj
  have := h.unique i j hi (by omega) hm.1 hlive (hkey.trans hkeyj)
  omega

/-- A free entry, or the one behind the last, gets a new name. -/
theorem IsMap.link (h : IsMap sb s dp n M) {i : Nat} (hfree : i < n → (s.dirent dp i).inum = 0)
    (hi : i ≤ n) {de : Dirent} (hlive : de.inum ≠ 0) (hM : M (nameKey de.name) = none)
    (hdir : DirOk sb s' dp (max n (i + 1)))
    (he : ∀ j, s'.dirent dp j = if j = i then de else s.dirent dp j) :
    IsMap sb s' dp (max n (i + 1)) (update M (nameKey de.name) (some de.inum)) := by
  have hself : s'.dirent dp i = de := by rw [he, if_pos rfl]
  have hother : ∀ j, j ≠ i → s'.dirent dp j = s.dirent dp j := fun j hj => by rw [he, if_neg hj]
  have hnew : ∀ j, j < n → (s.dirent dp j).inum ≠ 0 → nameKey (s.dirent dp j).name ≠ nameKey de.name := by
    intro j hj hl hk
    rw [← hk, h.sound j hj hl] at hM
    cases hM
  have hlt : ∀ j, j ≠ i → j < max n (i + 1) → j < n := by omega
  refine ⟨hdir, ?_, ?_, ?_⟩
  · intro a b ha hb hla hlb hkey
    by_cases hai : a = i
    · by_cases hbi : b = i
      · rw [hai, hbi]
      · subst hai
        rw [hself, hother b hbi] at hkey
        rw [hother b hbi] at hlb
        exact absurd hkey.symm (hnew b (hlt b hbi hb) hlb)
    · rw [hother a hai] at hla hkey
      by_cases hbi : b = i
      · subst hbi
        rw [hself] at hkey
        exact absurd hkey (hnew a (hlt a hai ha) hla)
      · rw [hother b hbi] at hlb hkey
        exact h.unique a b (hlt a hai ha) (hlt b hbi hb) hla hlb hkey
  · intro a ha hl
    by_cases hai : a = i
    · subst hai
      rw [hself, update_self]
    · rw [hother a hai] at hl ⊢
      rw [update_of_ne (hnew a (hlt a hai ha) hl)]
      exact h.sound a (hlt a hai ha) hl
  · intro key v hkey
    by_cases hk : key = nameKey de.name
    · subst hk
      rw [update_self] at hkey
      obtain rfl := Option.some_inj.mp hkey
      exact ⟨i, by omega, hlive, by rw [hself], by rw [hself]⟩
    · rw [update_of_ne hk] at hkey
      obtain ⟨j, hj, hv, hinum, hname⟩ := h.complete key v hkey
      have hji : j ≠ i := by
        rintro rfl
        exact hv (hinum ▸ hfree hj)
      exact ⟨j, by omega, hv, by rw [hother j hji]; exact hinum, by rw [hother j hji]; exact hname⟩

/-- An entry in use is cleared. -/
theorem IsMap.unlink (h : IsMap sb s dp n M) {i : Nat} (hi : i < n) (hlive : (s.dirent dp i).inum ≠ 0)
    {de : Dirent} (hzero : de.inum = 0) (hdir : DirOk sb s' dp n)
    (he : ∀ j, s'.dirent dp j = if j = i then de else s.dirent dp j) :
    IsMap sb s' dp n (update M (nameKey (s.dirent dp i).name) none) := by
  have hself : (s'.dirent dp i).inum = 0 := by rw [he, if_pos rfl, hzero]
  have hne : ∀ {j}, (s'.dirent dp j).inum ≠ 0 → j ≠ i := by
    rintro j hj rfl
    exact hj hself
  have hother : ∀ {j}, j ≠ i → s'.dirent dp j = s.dirent dp j := fun hj => by rw [he, if_neg hj]
  refine ⟨hdir, ?_, ?_, ?_⟩
  · intro a b ha hb hla hlb hkey
    have hai := hne hla
    have hbi := hne hlb
    rw [hother hai] at hla hkey
    rw [hother hbi] at hlb hkey
    exact h.unique a b ha hb hla hlb hkey
  · intro a ha hl
    have hai := hne hl
    rw [hother hai] at hl ⊢
    rw [update_of_ne fun hk => hai (h.unique a i ha hi hl hlive hk)]
    exact h.sound a ha hl
  · intro key v hkey
    by_cases hk : key = nameKey (s.dirent dp i).name
    · subst hk
      rw [update_self] at hkey
      cases hkey
    · rw [update_of_ne hk] at hkey
      obtain ⟨j, hj, hv, hinum, hname⟩ := h.complete key v hkey
      have hji : j ≠ i := by
        rintro rfl
        exact hk hname.symm
      exact ⟨j, hj, hv, by rw [hother hji]; exact hinum, by rw [hother hji]; exact hname⟩

/-! ## The calls on a map -/

/-- **Enough room** for one more entry: a free one or one below the maximal size of a file, whose block is
there or can be allocated. -/
def Room (sb : Superblock) (s : Files) (dp : InodeId) : Prop :=
  ∀ off, dirlinkLoop sb dp (s.inode dp).size.toNat 0 s = .ok (off, s, []) →
    off + Dirent.size ≤ maxfile * bsize ∧ Returns (bmap sb dp (off / bsize)) (fun a _ _ => a ≠ 0) s

/-- **`dirlink`** of a name that is not there adds it. -/
theorem IsMap.dirlink_absent (h : IsMap sb s dp n M) (hM : M (nameKey name) = none) (hz : 0 ∉ name)
    {inum : UInt16} (hi : inum ≠ 0) (hroom : Room sb s dp) :
    Returns (dirlink sb dp name (UInt32.ofNat inum.toNat)) (fun r s' _ => r = 0 ∧
      ∃ n', IsMap sb s' dp n' (update M (nameKey name) (some inum))) s := by
  obtain ⟨i, hin, hfree, hrun⟩ := @dirlinkLoop_run sb s dp n h.dir.isDir n 0 rfl (Nat.zero_le n)
  rw [← h.dir.size, Nat.mul_zero] at hrun
  obtain ⟨hmax, hblock⟩ := hroom _ hrun
  have hinum : UInt16.ofNat (UInt32.ofNat inum.toNat).toNat = inum := by
    have := inum.toNat_lt
    rw [UInt32.toNat_ofNat', Nat.mod_eq_of_lt (by omega), UInt16.ofNat_toNat]
  unfold Xv6.dirlink
  apply Returns.seq_run (h.dirlookup_absent hM)
  dsimp only
  apply Returns.seq_get
  apply Returns.seq_run hrun
  rw [hinum]
  apply Returns.seq
  apply (@writeDirent_run sb s dp n ⟨inum, strncpy name dirsiz⟩ i h.dir hin
    (strncpy_length name dirsiz) hmax hblock).mono
  rintro r s' l ⟨rfl, hdir, he⟩
  rw [if_neg fun hf => hf rfl]
  have hkey := nameKey_strncpy hz
  have hmap := h.link hfree hin (show Dirent.inum ⟨inum, strncpy name dirsiz⟩ ≠ 0 from hi)
    (by rw [hkey]; exact hM) hdir he
  rw [hkey] at hmap
  exact .ret ⟨rfl, _, hmap⟩

/-- **`dirlink`** of a name that is there fails. -/
theorem IsMap.dirlink_present (h : IsMap sb s dp n M) {v : UInt16} (hM : M (nameKey name) = some v)
    (inum : UInt32) :
    dirlink sb dp name inum s =
      (do let ip ← iget v.toNat; iput sb ip; return -1 : FilesM Int) s := by
  obtain ⟨i, -, -, -, -, hlook⟩ := h.dirlookup_present hM
  unfold Xv6.dirlink
  rcases iget_taken v.toNat s with herr | ⟨k, s₁, l, hget, -, rfl⟩
  · rw [bind_of_error herr]
    rw [bind_of_error herr] at hlook
    exact bind_of_error hlook
  · rw [bind_of_ok hget]
    rw [bind_of_ok hget] at hlook
    exact bind_of_ok hlook

/-- A reference that is taken and dropped leaves the directory as it is. -/
theorem IsMap.iget_iput (h : IsMap sb s dp n M) {v : Nat} {r r' : Int} {l : List FilesEvent}
    (hrun : (do let ip ← iget v; iput sb ip; return r : FilesM Int) s = .ok (r', s', l)) :
    r' = r ∧ IsMap sb s' dp n M := by
  rcases iget_taken v s with herr | ⟨k, s₁, l₁, hget, ht, rfl⟩
  · rw [bind_of_error herr] at hrun
    cases hrun
  · rw [bind_of_ok hget] at hrun
    obtain ⟨⟨⟩, s₂, l₂, hput, hblock, hkeep⟩ := @Taken.iput sb s s₁ v k ht
    rw [bind_run hput (rfl : (pure r : FilesM Int) s₂ = _)] at hrun
    cases hrun
    have hsame := hkeep dp h.dir.ref
    obtain ⟨hdir, he⟩ := h.dir.congr hblock (by rw [hsame]) (by rw [hsame]; exact h.dir.ref)
    exact ⟨rfl, h.congr hdir he⟩

/-- **The removal** of a name that is there. -/
theorem IsMap.unlink_present (h : IsMap sb s dp n M) {v : UInt16} (hM : M (nameKey name) = some v) :
    iget v.toNat s = .error .iget ∨
      Returns (unlinkEntry sb dp name) (fun x s' _ => x.isSome ∧
        IsMap sb s' dp n (update M (nameKey name) none)) s := by
  obtain ⟨i, hi, hinum, hv, hkey, hlook⟩ := h.dirlookup_present hM
  rcases iget_taken v.toNat s with herr | ⟨k, s₁, l, hget, ht, rfl⟩
  · exact .inl herr
  · right
    rw [bind_of_ok hget] at hlook
    obtain ⟨hdir₁, he₁⟩ := ht.dir h.dir
    have h₁ := h.congr hdir₁ he₁
    have hsize := hdir₁.size
    have hle := hdir₁.file.size
    -- the block of an entry that is there need not be allocated
    have hmapped := hdir₁.file.mapped (Dirent.size * i) (by
      rw [hsize]
      exact Nat.mul_lt_mul_of_pos_left hi (by decide))
    have hentry : Dirent.size * i + Dirent.size ≤ Dirent.size * n := by
      rw [← Nat.mul_succ]
      exact Nat.mul_le_mul_left _ hi
    unfold unlinkEntry
    apply Returns.seq_run hlook
    dsimp only
    apply Returns.seq
    apply (@writeDirent_run sb s₁ dp n .zero i hdir₁ hi.le rfl (by omega)
      (.of_ok (bmap_run hmapped) hmapped)).mono
    rintro r s' l ⟨rfl, hdir, he⟩
    rw [if_neg fun hf => hf rfl]
    refine .ret ⟨rfl, ?_⟩
    rw [max_eq_left (show i + 1 ≤ n from hi)] at hdir
    have hun := h₁.unlink hi (by rw [he₁, hinum]; exact hv) rfl hdir he
    rwa [he₁, hkey] at hun

/-! ## Runs -/

/-- A call on the directory, or anything else that happens in the file system. -/
inductive DirAct where
  | dirlink (name : List UInt8) (inum : UInt16) (r : Int)
  | unlink (name : List UInt8)
  | other

/-- What happens to a directory. A name is a C string. -/
inductive DirStep (sb : Superblock) (dp : InodeId) : Files → DirAct → Files → Prop
  | dirlink {s s' : Files} {name : List UInt8} {inum : UInt16} {r : Int} {l : List FilesEvent}
      (hz : 0 ∉ name) (hi : inum ≠ 0) (hroom : Room sb s dp)
      (hrun : dirlink sb dp name (UInt32.ofNat inum.toNat) s = .ok (r, s', l)) :
      DirStep sb dp s (.dirlink name inum r) s'
  | unlink {s s' : Files} {name : List UInt8} {x : Option InodeId} {l : List FilesEvent}
      (hrun : unlinkEntry sb dp name s = .ok (x, s', l)) : DirStep sb dp s (.unlink name) s'
  -- the rest of the file system keeps the inode of the directory and its contents
  | other {s s' : Files} (hdir : ∀ n, DirOk sb s dp n → DirOk sb s' dp n)
      (he : ∀ j, s'.dirent dp j = s.dirent dp j) : DirStep sb dp s .other s'

/-- What happens to a map. -/
def DirMap.Step (M : DirMap) : DirAct → DirMap → Prop
  | .dirlink name inum r, M' =>
    if (M (nameKey name)).isSome then r = -1 ∧ M' = M
    else r = 0 ∧ M' = update M (nameKey name) (some inum)
  | .unlink name, M' => M' = update M (nameKey name) none
  | .other, M' => M' = M

/-- A call on the directory is one on the map. -/
theorem IsMap.step (h : IsMap sb s dp n M) {a : DirAct} (hstep : DirStep sb dp s a s') :
    ∃ M', M.Step a M' ∧ ∃ n', IsMap sb s' dp n' M' := by
  cases hstep with
  | @dirlink _ name inum r l hz hi hroom hrun =>
    cases hM : M (nameKey name) with
    | none =>
      obtain ⟨r', s'', l', hrun', rfl, hmap⟩ := h.dirlink_absent hM hz hi hroom
      rw [hrun] at hrun'
      cases hrun'
      exact ⟨_, (if_neg (by rw [hM]; decide)).mpr ⟨rfl, rfl⟩, hmap⟩
    | some v =>
      rw [h.dirlink_present hM] at hrun
      obtain ⟨rfl, hmap⟩ := h.iget_iput hrun
      exact ⟨M, (if_pos (by rw [hM]; rfl)).mpr ⟨rfl, rfl⟩, n, hmap⟩
  | @unlink _ name x l hrun =>
    refine ⟨_, rfl, n, ?_⟩
    cases hM : M (nameKey name) with
    | none =>
      unfold unlinkEntry at hrun
      rw [bind_of_ok (h.dirlookup_absent hM)] at hrun
      cases hrun
      rw [← hM, update_eq_self]
      exact h
    | some v =>
      rcases h.unlink_present hM with herr | ⟨x', s'', l', hrun', -, hmap⟩
      · obtain ⟨i, -, -, -, -, hlook⟩ := h.dirlookup_present hM
        rw [bind_of_error herr] at hlook
        unfold unlinkEntry at hrun
        rw [bind_of_error hlook] at hrun
        cases hrun
      · rw [hrun] at hrun'
        cases hrun'
        exact hmap
  | other hdir he => exact ⟨M, rfl, n, h.congr (hdir n h.dir) he⟩

/-- **The calls answer as the map does.** -/
structure Answers (sb : Superblock) (s : Files) (dp : InodeId) (M : DirMap) : Prop where
  absent : ∀ name, M (nameKey name) = none → dirlookup sb dp name s = .ok (none, s, [])
  present : ∀ name v, M (nameKey name) = some v → ∃ off, dirlookup sb dp name s =
    (do let ip ← iget v.toNat; return some (ip, off) : FilesM _) s
  link : ∀ name inum, 0 ∉ name → inum ≠ 0 → Room sb s dp → M (nameKey name) = none →
    Returns (dirlink sb dp name (UInt32.ofNat (UInt16.toNat inum))) (fun r _ _ => r = 0) s
  refuse : ∀ name inum v, M (nameKey name) = some v → dirlink sb dp name inum s =
    (do let ip ← iget v.toNat; iput sb ip; return -1 : FilesM Int) s
  remove : ∀ name v, M (nameKey name) = some v → iget v.toNat s = .error .iget ∨
    Returns (unlinkEntry sb dp name) (fun x _ _ => x.isSome) s

/-- `dirlookup` answers as the map does. -/
theorem IsMap.answers (h : IsMap sb s dp n M) : Answers sb s dp M where
  absent _ hM := h.dirlookup_absent hM
  present _ _ hM := by
    obtain ⟨i, -, -, -, -, hlook⟩ := h.dirlookup_present hM
    exact ⟨_, hlook⟩
  link _ _ hz hi hroom hM := (h.dirlink_absent hM hz hi hroom).mono fun _ _ _ h => h.1
  refuse _ inum _ hM := h.dirlink_present hM inum
  remove _ _ hM := (h.unlink_present hM).imp_right fun hr => hr.mono fun _ _ _ h => h.1

/-- **A directory is a finite map on names of 14 bytes.** After every sequence of `dirlink` and removals
on a directory that was empty, with enough room: no two entries in use have equal names, the results of
`dirlink` were those of a map, and the next calls answer as the map does. -/
theorem directory_is_map {s₀ : Files} {as : List DirAct} (h₀ : DirOk sb s₀ dp 0)
    (hrun : Run (DirStep sb dp) s₀ as s) :
    ∃ M : DirMap, Run DirMap.Step (fun _ => none) as M ∧ Answers sb s dp M ∧
      ∃ n, IsDir s dp n ∧ ∀ i j, i < n → j < n → (s.dirent dp i).inum ≠ 0 →
        (s.dirent dp j).inum ≠ 0 → namecmp (s.dirent dp i).name (s.dirent dp j).name = 0 → i = j := by
  have hstep : ∀ s (M : DirMap) a s', (∃ n, IsMap sb s dp n M) → DirStep sb dp s a s' →
      ∃ M', M.Step a M' ∧ ∃ n, IsMap sb s' dp n M' := fun _ _ _ _ ⟨_, h⟩ hs => h.step hs
  obtain ⟨M, hM, n, hmap⟩ := hrun.simulate ⟨0, isMap_empty h₀⟩ hstep
  refine ⟨M, hM, hmap.answers, n, hmap.dir.isDir, fun i j hi hj hli hlj hname => ?_⟩
  exact hmap.unique i j hi hj hli hlj ((strncmp_eq_zero _ _ _).mp hname)

/-- A disk with free blocks and an empty directory. -/
def emptyDir : Files :=
  (smallImage partBitmap).setInode 0 ⟨{ Dinode.zero with type := tDir }, 1, 1, true⟩

theorem emptyDir_ok : DirOk smallDisk emptyDir 0 0 := by
  have hmeta : ∀ b < 50, emptyDir.marked smallDisk b = true := by decide +kernel
  exact ⟨.empty (by decide) rfl (by decide) hmeta, rfl, rfl, by decide⟩

theorem emptyDir_room : Room smallDisk emptyDir 0 := by
  intro off hoff
  rw [show (emptyDir.inode 0).size.toNat = 0 from rfl, dirlinkLoop, dif_neg (by decide)] at hoff
  cases hoff
  exact ⟨by decide, by decide +kernel⟩

/-- One name is linked and found. -/
theorem directory_is_map_one : ∃ s, Run (DirStep smallDisk 0) emptyDir [.dirlink [97] 5 0] s ∧
    ∃ off, dirlookup smallDisk 0 [97] s = (do let ip ← iget 5; return some (ip, off) : FilesM _) s := by
  obtain ⟨M₀, hM₀, hans, -⟩ := directory_is_map emptyDir_ok .nil
  obtain rfl := hM₀.eq_of_nil
  obtain ⟨r, s, l, hrun, rfl⟩ := hans.link [97] 5 (by decide) (by decide) emptyDir_room rfl
  have hlinked := Run.single (DirStep.dirlink (by decide) (by decide) emptyDir_room hrun)
  refine ⟨s, hlinked, ?_⟩
  obtain ⟨M, hM, hans', -⟩ := directory_is_map emptyDir_ok hlinked
  have hM : Run DirMap.Step (fun _ => none) ([] ++ [.dirlink [97] 5 0]) M := hM
  obtain ⟨M₁, hM₁, hlast⟩ := hM.unsnoc
  obtain rfl := hM₁.eq_of_nil
  obtain ⟨-, rfl⟩ := hlast
  exact hans'.present [97] 5 (update_self ..)

end Xv6
