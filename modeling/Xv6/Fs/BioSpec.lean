import Xv6.Fs.Bio

/-!
# What the buffer cache stores

The contents of a block are those of its buffer if it has one that is valid, and those on disk
otherwise. Buffers of *dirty* blocks may differ from the disk; they keep a reference, so they are not
recycled and their contents are not lost.
-/

namespace Xv6

open TraceM Function

namespace Fs

/-- The contents of a block as `bread` returns them. -/
def view (s : Fs) (b : Nat) : Block :=
  match s.cache.lookup rootdev b with
  | some i => if (s.cache.buf i).valid then (s.cache.buf i).data else s.disk b
  | none => s.disk b

/-- The buffer `i` holds the contents `v` of block `b`. -/
structure Caches (s : Fs) (i : BufId) (b : Nat) (v : Block) : Prop where
  has : s.cache.Has i b
  valid : (s.cache.buf i).valid = true
  data : (s.cache.buf i).data = v

/-- The cache has `m b` references to each block `b`, and all blocks but those in `D` are the same in
the cache and on disk. -/
structure Ok (s : Fs) (m : Nat → Nat) (D : List Nat) : Prop where
  cache : CacheOk s.cache m
  clean : ∀ {i b}, s.cache.Has i b → (s.cache.buf i).valid = true → b ∉ D →
    (s.cache.buf i).data = s.disk b
  dirty : ∀ {b}, b ∈ D → m b ≠ 0

variable {s s' : Fs} {m : Nat → Nat} {D : List Nat} {b : Nat} {i : BufId} {v : Block}

/-- A block is seen in its buffer once this is valid. -/
theorem Ok.view_of_has (h : s.Ok m D) (hi : s.cache.Has i b) :
    s.view b = if (s.cache.buf i).valid then (s.cache.buf i).data else s.disk b := by
  unfold view
  rw [h.cache.lookup_of_has hi]

theorem view_of_not_has (hn : ∀ i, ¬ s.cache.Has i b) : s.view b = s.disk b := by
  unfold view
  rw [CacheOk.lookup_none hn]

/-- A clean block has the same contents in the cache and on disk. -/
theorem Ok.view_clean (h : s.Ok m D) (hb : b ∉ D) : s.view b = s.disk b := by
  by_cases hex : ∃ i, s.cache.Has i b
  · obtain ⟨i, hi⟩ := hex
    rw [h.view_of_has hi]
    split
    · next hv => exact h.clean hi hv hb
    · rfl
  · exact view_of_not_has fun i hi => hex ⟨i, hi⟩

end Fs

/-- What reading, pinning and releasing buffers leave alone. -/
structure Fs.Same (s s' : Fs) : Prop where
  view : s'.view = s.view
  disk : s'.disk = s.disk
  log : s'.log = s.log

namespace Fs

variable {s s' s'' : Fs} {m : Nat → Nat} {D : List Nat} {b : Nat} {i : BufId} {v : Block}

theorem Same.trans (h : Same s s') (h' : Same s' s'') : Same s s'' :=
  ⟨h'.view.trans h.view, h'.disk.trans h.disk, h'.log.trans h.log⟩

/-- Another count of references in a buffer, and another order of the list. -/
theorem Ok.recount (h : s.Ok m D) {c : Bcache} {m' : Nat → Nat} (hc : CacheOk c m')
    (hbuf : ∀ j, (c.buf j).valid = (s.cache.buf j).valid ∧ (c.buf j).dev = (s.cache.buf j).dev ∧
      (c.buf j).blockno = (s.cache.buf j).blockno ∧ (c.buf j).data = (s.cache.buf j).data)
    {D' : List Nat} (hsub : ∀ {b}, b ∈ D → b ∈ D') (hD : ∀ {b}, b ∈ D' → m' b ≠ 0) :
    (s.setCache c).Ok m' D' ∧ Same s (s.setCache c) := by
  have hhas : ∀ {j b}, c.Has j b ↔ s.cache.Has j b := by
    intro j b
    unfold Bcache.Has
    rw [(hbuf j).2.1, (hbuf j).2.2.1]
  have hok : (s.setCache c).Ok m' D' := by
    refine ⟨hc, ?_, hD⟩
    intro j x hj hv hx
    have hv : (c.buf j).valid = true := hv
    show (c.buf j).data = s.disk x
    rw [(hbuf j).1] at hv
    rw [(hbuf j).2.2.2]
    exact h.clean (hhas.mp hj) hv fun hxD => hx (hsub hxD)
  refine ⟨hok, ?_, rfl, rfl⟩
  funext x
  by_cases hex : ∃ j, s.cache.Has j x
  · obtain ⟨j, hj⟩ := hex
    rw [h.view_of_has hj, hok.view_of_has (hhas.mpr hj)]
    show (if (c.buf j).valid then (c.buf j).data else s.disk x) = _
    rw [(hbuf j).1, (hbuf j).2.2.2]
  · have hn : ∀ j, ¬ s.cache.Has j x := fun j hj => hex ⟨j, hj⟩
    rw [view_of_not_has hn, view_of_not_has fun j hj => hn j (hhas.mp hj)]
    rfl

/-- Reading a buffer in. -/
def fill (s : Fs) (i : BufId) : Fs :=
  s.setCache (s.cache.setBuf i
    { s.cache.buf i with data := s.disk (s.cache.buf i).blockno, valid := true })

theorem fill_other {j : BufId} (hj : j ≠ i) : (s.fill i).cache.buf j = s.cache.buf j := by
  simp [fill, setCache, Bcache.setBuf, update_of_ne hj]

theorem fill_self : (s.fill i).cache.buf i =
    { s.cache.buf i with data := s.disk (s.cache.buf i).blockno, valid := true } := by
  simp [fill, setCache, Bcache.setBuf]

theorem fill_has {j : BufId} {x : Nat} : (s.fill i).cache.Has j x ↔ s.cache.Has j x := by
  by_cases hj : j = i
  · subst hj
    unfold Bcache.Has
    rw [fill_self]
  · unfold Bcache.Has
    rw [fill_other hj]

/-- Filling a buffer from the disk changes nothing that is seen. -/
theorem Ok.fill (h : s.Ok m D) (hi : s.cache.Has i b) (hv : (s.cache.buf i).valid = false) :
    (s.fill i).Ok m D ∧ Same s (s.fill i) ∧ (s.fill i).Caches i b (s.view b) := by
  have hview : s.view b = s.disk b := by
    rw [h.view_of_has hi, hv]
    rfl
  have hok : (s.fill i).Ok m D := by
    refine ⟨h.cache.setData _ _, ?_, h.dirty⟩
    intro j x hj hjv hx
    by_cases hji : j = i
    · subst hji
      rw [fill_self]
      show s.disk (s.cache.buf j).blockno = s.disk x
      rw [(fill_has.mp hj).2]
    · rw [fill_other hji] at hjv ⊢
      exact h.clean (fill_has.mp hj) hjv hx
  refine ⟨hok, ⟨?_, rfl, rfl⟩, fill_has.mpr hi, by rw [fill_self], ?_⟩
  · funext x
    by_cases hex : ∃ j, s.cache.Has j x
    · obtain ⟨j, hj⟩ := hex
      rw [h.view_of_has hj, hok.view_of_has (fill_has.mpr hj)]
      by_cases hji : j = i
      · subst hji
        rw [fill_self, hv, ← hj.2]
        rfl
      · rw [fill_other hji]
        rfl
    · have hn : ∀ j, ¬ s.cache.Has j x := fun j hj => hex ⟨j, hj⟩
      rw [view_of_not_has hn, view_of_not_has fun j hj => hn j (fill_has.mp hj)]
      rfl
  · rw [fill_self, hview, hi.2]

/-- The caller's buffers stay what they are while others are read. -/
def Kept (m : Nat → Nat) (s s' : Fs) : Prop :=
  ∀ {j b v}, s.Caches j b v → m b ≠ 0 → s'.Caches j b v

/-- **`bget`** returns a buffer for the block, if it is held already or some buffer is not. -/
theorem bget_spec (h : s.Ok m D) (hb : m b ≠ 0 ∨ ∃ i, (s.cache.buf i).refcnt = 0) :
    ∃ i s', bget rootdev b s = .ok (i, s', []) ∧ s'.Ok (addRef m b) D ∧ s'.cache.Has i b ∧
      Same s s' ∧ Kept m s s' := by
  obtain ⟨i, c, hget, hc, hi, hother, hcase⟩ := h.cache.bget_some hb
  have hrun : bget rootdev b s = .ok (i, s.setCache c, []) := by
    unfold bget
    rw [get_bind_apply, hget]
    rfl
  have hD : ∀ {x}, x ∈ D → addRef m b x ≠ 0 := fun hx => addRef_ne_zero (h.dirty hx)
  rcases hcase with ⟨hhas, hbuf⟩ | ⟨hn, hzero, hinvalid⟩
  · have hall : ∀ j, (c.buf j).valid = (s.cache.buf j).valid ∧ (c.buf j).dev = (s.cache.buf j).dev ∧
        (c.buf j).blockno = (s.cache.buf j).blockno ∧ (c.buf j).data = (s.cache.buf j).data := by
      intro j
      by_cases hj : j = i
      · subst hj
        rw [hbuf]
        exact ⟨rfl, rfl, rfl, rfl⟩
      · rw [hother j hj]
        exact ⟨rfl, rfl, rfl, rfl⟩
    obtain ⟨hok, hsame⟩ := h.recount hc hall id hD
    refine ⟨i, _, hrun, hok, hi, hsame, ?_⟩
    rintro j x v ⟨⟨hdev, hno⟩, hv, hd⟩ -
    obtain ⟨hv', hdev', hno', hd'⟩ := hall j
    exact ⟨⟨hdev'.trans hdev, hno'.trans hno⟩, hv'.trans hv, hd'.trans hd⟩
  · -- the buffer cached a block without references, which is clean
    have hfree : ∀ {x}, s.cache.Has i x → x ∉ D := by
      intro x hx hxD
      apply h.dirty hxD
      rw [← hx.2, ← h.cache.count hx.1, hzero]
    have hok : (s.setCache c).Ok (addRef m b) D := by
      refine ⟨hc, ?_, hD⟩
      intro j x hj hv hx
      by_cases hji : j = i
      · subst hji
        exact absurd (hinvalid.symm.trans hv) (by simp)
      · have hjbuf : (s.setCache c).cache.buf j = s.cache.buf j := hother j hji
        rw [hjbuf] at hv ⊢
        unfold Bcache.Has at hj
        rw [hjbuf] at hj
        exact h.clean hj hv hx
    refine ⟨i, _, hrun, hok, hi, ⟨?_, rfl, rfl⟩, ?_⟩
    · funext x
      by_cases hxb : x = b
      · subst hxb
        have hinv : ((s.setCache c).cache.buf i).valid = false := hinvalid
        rw [view_of_not_has hn, hok.view_of_has hi, hinv]
        rfl
      · by_cases hex : ∃ j, s.cache.Has j x
        · obtain ⟨j, hj⟩ := hex
          by_cases hji : j = i
          · subst hji
            rw [h.view_clean (hfree hj), hok.view_clean (hfree hj)]
            rfl
          · have hjbuf : (s.setCache c).cache.buf j = s.cache.buf j := hother j hji
            have hj' : (s.setCache c).cache.Has j x := by
              unfold Bcache.Has
              rw [hjbuf]
              exact hj
            rw [h.view_of_has hj, hok.view_of_has hj', hjbuf]
            rfl
        · have hnx : ∀ j, ¬ s.cache.Has j x := fun j hj => hex ⟨j, hj⟩
          have hnx' : ∀ j, ¬ (s.setCache c).cache.Has j x := by
            intro j hj
            by_cases hji : j = i
            · subst hji
              exact hxb (hj.2.symm.trans hi.2)
            · apply hnx j
              unfold Bcache.Has at hj
              rwa [show (s.setCache c).cache.buf j = s.cache.buf j from hother j hji] at hj
          rw [view_of_not_has hnx, view_of_not_has hnx']
          rfl
    · rintro j x v ⟨hhas, hv, hd⟩ hm
      have hji : j ≠ i := by
        rintro rfl
        rw [← hhas.2, ← h.cache.count hhas.1] at hm
        exact hm hzero
      have hjbuf : (s.setCache c).cache.buf j = s.cache.buf j := hother j hji
      refine ⟨?_, by rw [hjbuf]; exact hv, by rw [hjbuf]; exact hd⟩
      unfold Bcache.Has
      rw [hjbuf]
      exact hhas

/-- **`bread`** of a block with references, or while a buffer is without: it returns a buffer with the
contents of the block. -/
theorem bread_spec (h : s.Ok m D) (hb : m b ≠ 0 ∨ ∃ i, (s.cache.buf i).refcnt = 0) :
    ∃ i s', bread rootdev b s = .ok (i, s', []) ∧ s'.Ok (addRef m b) D ∧ s'.Caches i b (s.view b) ∧
      Same s s' ∧ Kept m s s' := by
  obtain ⟨i, s₁, hrun, hok, hi, hsame, hkept⟩ := bget_spec h hb
  unfold bread
  rw [bind_of_ok hrun, get_bind_apply]
  cases hv : (s₁.cache.buf i).valid with
  | true =>
    refine ⟨i, s₁, by simp, hok, ⟨hi, hv, ?_⟩, hsame, hkept⟩
    rw [← hsame.view, hok.view_of_has hi, if_pos hv]
  | false =>
    obtain ⟨hok', hsame', hc⟩ := hok.fill hi hv
    refine ⟨i, s₁.fill i, ?_, hok', ?_, hsame.trans hsame', ?_⟩
    · rw [if_neg (by simp)]
      rfl
    · rw [← hsame.view]
      exact hc
    · rintro j x v hj hm
      obtain ⟨hhas, hjv, hd⟩ := hkept hj hm
      have hji : j ≠ i := by
        rintro rfl
        exact absurd (hjv.symm.trans hv) (by simp)
      exact ⟨fill_has.mpr hhas, by rw [fill_other hji]; exact hjv, by rw [fill_other hji]; exact hd⟩

/-- If `bread` returns, the block had a buffer with references or there was one without. -/
theorem bread_room (h : s.Ok m D) {r : BufId × Fs × List DiskWrite}
    (hrun : bread rootdev b s = .ok r) : m b ≠ 0 ∨ ∃ i, (s.cache.buf i).refcnt = 0 := by
  by_contra hno
  have hb : m b = 0 := by
    by_contra hb
    exact hno (.inl hb)
  have hall : ∀ i, (s.cache.buf i).refcnt ≠ 0 := fun i hi => hno (.inr ⟨i, hi⟩)
  have hn : ∀ i, ¬ s.cache.Has i b := by
    intro i hi
    apply hall i
    rw [h.cache.count hi.1, hi.2, hb]
  have herr : bread rootdev b s = .error .bget := by
    apply bind_of_error
    unfold bget
    rw [get_bind_apply, CacheOk.bget_none hn hall]
    rfl
  rw [herr] at hrun
  cases hrun

/-- Giving back a reference, or taking one more. -/
theorem recount_same {c : Bcache} {n : Nat} (hc : c.buf = (s.cache.setBuf i
    { s.cache.buf i with refcnt := n }).buf) (j : BufId) :
    (c.buf j).valid = (s.cache.buf j).valid ∧ (c.buf j).dev = (s.cache.buf j).dev ∧
      (c.buf j).blockno = (s.cache.buf j).blockno ∧ (c.buf j).data = (s.cache.buf j).data := by
  rw [hc]
  by_cases hj : j = i
  · subst hj
    simp [Bcache.setBuf]
  · simp [Bcache.setBuf, update_of_ne hj]

theorem kept_of_same {c : Bcache} (hc : ∀ j, (c.buf j).valid = (s.cache.buf j).valid ∧
      (c.buf j).dev = (s.cache.buf j).dev ∧ (c.buf j).blockno = (s.cache.buf j).blockno ∧
      (c.buf j).data = (s.cache.buf j).data) {j : BufId} (h : s.Caches j b v) :
    (s.setCache c).Caches j b v := by
  obtain ⟨hv, hdev, hno, hd⟩ := hc j
  exact ⟨⟨hdev.trans h.has.1, hno.trans h.has.2⟩, hv.trans h.valid, hd.trans h.data⟩

theorem brelse_buf (c : Bcache) (i : BufId) :
    (c.brelse i).buf = (c.setBuf i { c.buf i with refcnt := (c.buf i).refcnt - 1 }).buf := by
  unfold Bcache.brelse
  dsimp only
  split <;> rfl

/-- **`brelse`** of a buffer whose block is clean, or keeps another reference. -/
theorem brelse_spec (h : s.Ok m D) (hi : s.cache.Has i b) (hD : ∀ {x}, x ∈ D → dropRef m b x ≠ 0) :
    ∃ s', brelse i s = .ok ((), s', []) ∧ s'.Ok (dropRef m b) D ∧ Same s s' ∧
      ∀ {j x v}, s.Caches j x v → s'.Caches j x v := by
  have hbuf := recount_same (s := s) (brelse_buf s.cache i)
  obtain ⟨hok, hsame⟩ := h.recount (h.cache.brelse hi) hbuf id hD
  exact ⟨_, rfl, hok, hsame, kept_of_same hbuf⟩

/-- `bunpin` returns, with a reference less. -/
theorem bunpin_spec (h : s.Ok m D) (hi : s.cache.Has i b) (hD : ∀ {x}, x ∈ D → dropRef m b x ≠ 0) :
    ∃ s', bunpin i s = .ok ((), s', []) ∧ s'.Ok (dropRef m b) D ∧ Same s s' ∧
      ∀ {j x v}, s.Caches j x v → s'.Caches j x v := by
  have hbuf := recount_same (s := s) (c := s.cache.bunpin i) (i := i) rfl
  obtain ⟨hok, hsame⟩ := h.recount (h.cache.bunpin hi) hbuf id hD
  exact ⟨_, rfl, hok, hsame, kept_of_same hbuf⟩

/-- `bpin` returns, with a reference more. -/
theorem bpin_spec (h : s.Ok m D) (hi : s.cache.Has i b) :
    ∃ s', bpin i s = .ok ((), s', []) ∧ s'.Ok (addRef m b) D ∧ Same s s' ∧
      ∀ {j x v}, s.Caches j x v → s'.Caches j x v := by
  have hbuf := recount_same (s := s) (c := s.cache.bpin i) (i := i) rfl
  obtain ⟨hok, hsame⟩ := h.recount (h.cache.bpin hi) hbuf id fun hx => addRef_ne_zero (h.dirty hx)
  exact ⟨_, rfl, hok, hsame, kept_of_same hbuf⟩

theorem setData_self (v : Block) : (s.setData i v).cache.buf i = { s.cache.buf i with data := v } := by
  simp [setData, setCache, Bcache.setBuf]

theorem setData_other (v : Block) {j : BufId} (hj : j ≠ i) :
    (s.setData i v).cache.buf j = s.cache.buf j := by
  simp [setData, setCache, Bcache.setBuf, update_of_ne hj]

theorem setData_has {x : Nat} {j : BufId} :
    (s.setData i v).cache.Has j x ↔ s.cache.Has j x := by
  by_cases hj : j = i
  · subst hj
    unfold Bcache.Has
    rw [setData_self]
  · unfold Bcache.Has
    rw [setData_other v hj]

theorem Ok.setData_cache (h : s.Ok m D) : CacheOk (s.setData i v).cache m := by
  have := h.cache.setData (i := i) v (s.cache.buf i).valid
  exact this

/-- New contents of a block, in its buffer. -/
theorem Ok.setData_view (h : s.Ok m D) (hc : s.Caches i b v) (w : Block) {t : Fs}
    (ht : t.cache = (s.setData i w).cache) (hd : ∀ x, x ≠ b → t.disk x = s.disk x) :
    t.view = update s.view b w := by
  have hcache : CacheOk t.cache m := by
    rw [ht]
    exact h.setData_cache
  have hhas : ∀ {j x}, t.cache.Has j x ↔ s.cache.Has j x := by
    intro j x
    rw [ht]
    exact setData_has
  funext x
  by_cases hx : x = b
  · subst hx
    rw [update_self]
    unfold view
    rw [hcache.lookup_of_has (hhas.mpr hc.has)]
    dsimp only
    rw [ht, setData_self, hc.valid]
    rfl
  · rw [update_of_ne hx]
    by_cases hex : ∃ j, s.cache.Has j x
    · obtain ⟨j, hj⟩ := hex
      have hji : j ≠ i := by
        rintro rfl
        exact hx (hj.2.symm.trans hc.has.2)
      rw [h.view_of_has hj]
      unfold view
      rw [hcache.lookup_of_has (hhas.mpr hj)]
      dsimp only
      rw [ht, setData_other w hji, hd x hx]
    · have hn : ∀ j, ¬ s.cache.Has j x := fun j hj => hex ⟨j, hj⟩
      rw [view_of_not_has hn, view_of_not_has fun j hj => hn j (hhas.mp hj), hd x hx]

/-- A write to a buffer changes what this one caches. -/
theorem setData_caches (hc : s.Caches i b v) (w : Block) {t : Fs}
    (ht : t.cache = (s.setData i w).cache) :
    t.Caches i b w ∧ ∀ {j x v'}, j ≠ i → s.Caches j x v' → t.Caches j x v' := by
  refine ⟨⟨?_, ?_, ?_⟩, ?_⟩
  · rw [ht]
    exact setData_has.mpr hc.has
  · rw [ht, setData_self]
    exact hc.valid
  · rw [ht, setData_self]
  · intro j x v' hj hjc
    refine ⟨?_, ?_, ?_⟩
    · rw [ht]
      exact setData_has.mpr hjc.has
    · rw [ht, setData_other w hj]
      exact hjc.valid
    · rw [ht, setData_other w hj]
      exact hjc.data

/-- A buffer with new contents: its block is dirty. -/
theorem Ok.dirtied (h : s.Ok m D) {v : Block} (hc : s.Caches i b v) (data : Block) {D' : List Nat}
    (hsub : ∀ {x}, x ∈ D → x ∈ D') (hb : b ∈ D') (hD : ∀ {x}, x ∈ D' → m x ≠ 0) :
    (s.setData i data).Ok m D' := by
  refine ⟨h.setData_cache, ?_, hD⟩
  intro j x hjt hv hx
  have hj : s.cache.Has j x := setData_has.mp hjt
  clear hjt
  have hji : j ≠ i := by
    rintro rfl
    exact hx ((hj.2.symm.trans hc.has.2) ▸ hb)
  rw [setData_other data hji] at hv ⊢
  exact h.clean hj hv fun hxD => hx (hsub hxD)

/-- **Writing a block through**: new contents in the buffer, and `bwrite`. The block is clean then. -/
theorem bwrite_spec (h : s.Ok m D) (hc : s.Caches i b v) (w : Block) (D' : List Nat)
    (hD : ∀ {x}, x ∈ D → x ≠ b → x ∈ D') (hD' : ∀ {x}, x ∈ D' → m x ≠ 0) :
    ∃ s', bwrite i (s.setData i w) = .ok ((), s', [(b, w)]) ∧ s'.Ok m D' ∧
      s'.view = update s.view b w ∧ s'.disk = update s.disk b w ∧
      s'.log = s.log ∧ s'.Caches i b w ∧
      ∀ {j x v'}, j ≠ i → s.Caches j x v' → s'.Caches j x v' := by
  obtain ⟨hci, hcj⟩ := setData_caches hc w
    (t := { s.setData i w with disk := update s.disk b w }) rfl
  refine ⟨{ s.setData i w with disk := update s.disk b w }, ?_, ?_, ?_, rfl, rfl, hci, hcj⟩
  · unfold bwrite
    rw [get_bind_apply, setData_self, hc.has.2]
    rfl
  · refine ⟨h.setData_cache, ?_, hD'⟩
    intro j x hjt hv hx
    have hj : s.cache.Has j x := setData_has.mp hjt
    clear hjt
    by_cases hji : j = i
    · subst hji
      have hxb : x = b := hj.2.symm.trans hc.has.2
      subst hxb
      show ((s.setData j w).cache.buf j).data = update s.disk x w x
      rw [setData_self, update_self]
    · have hxb : x ≠ b := by
        rintro rfl
        exact hji (h.cache.unique hj.1 hc.has.1 (hj.2.trans hc.has.2.symm))
      have hv : ((s.setData i w).cache.buf j).valid = true := hv
      rw [setData_other w hji] at hv
      show ((s.setData i w).cache.buf j).data = update s.disk b w x
      rw [setData_other w hji, update_of_ne hxb]
      exact h.clean hj hv fun hxD => hx (hD hxD hxb)
  · exact h.setData_view hc w rfl fun x hx => update_of_ne hx _ _

end Fs

end Xv6
