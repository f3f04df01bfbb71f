import Xv6.Lib.Traced
import Xv6.Param
import Mathlib.Data.Finset.Card
import Mathlib.Data.Fintype.EquivFin

/-!
# `kernel/bio.c`: the buffer cache

Cached copies of disk blocks, each with a count of the references to it: one for each process that
uses the buffer or waits for it, and one while the log pins it. The list of buffers is kept in the
order of their last use, the most recent first. The sleep lock of a buffer is left out: whoever got a
reference from `bread` is taken to hold it.

The disk is one array of blocks, as `virtio_disk_rw` sees it: it uses the block number of a buffer
and not its device. Every block written is an event.
-/

namespace Xv6

open Function List

/-- `MAXOPBLOCKS`: the blocks a file-system operation writes at most. -/
abbrev maxOpBlocks : Nat := 10

/-- `LOGBLOCKS`: the data blocks of the log on disk. -/
abbrev logBlocks : Nat := maxOpBlocks * 3

/-- `NBUF`: the buffers of the cache. -/
abbrev nbuf : Nat := maxOpBlocks * 3

/-- `ROOTDEV`. -/
abbrev rootdev : Nat := 1

abbrev BufId := Fin nbuf

/-- Where the file system calls `panic`. -/
inductive FsPanic where
  | bget                 -- "bget: no buffers"
  | logWriteTooBig       -- "too big a transaction"
  | logWriteOutside      -- "log_write outside of trans"
  | endOp                -- "log.committing"
  deriving DecidableEq, Repr

/-- `struct buf`. -/
structure Buf where
  valid : Bool
  dev : Nat
  blockno : Nat
  refcnt : Nat
  data : Block

/-- `bcache`; `lru` is the list from `head.next` on. -/
structure Bcache where
  buf : BufId → Buf
  lru : List BufId

/-- `log`, with the entries of `lh.block` that are in use. -/
structure Log where
  start : Nat
  outstanding : Nat
  committing : Bool
  lh : List Nat

structure Fs where
  cache : Bcache
  disk : Nat → Block
  log : Log

/-- A block and what is written to it. -/
abbrev DiskWrite := Nat × Block

abbrev FsM := TraceM FsPanic Fs DiskWrite

namespace Bcache

variable (c : Bcache)

def setBuf (i : BufId) (b : Buf) : Bcache := { c with buf := update c.buf i b }

/-- The buffer that caches a block: the first loop of `bget`. -/
def lookup (dev blockno : Nat) : Option BufId :=
  c.lru.find? fun i => (c.buf i).dev == dev && (c.buf i).blockno == blockno

/-- The least recently used buffer without references: the second loop of `bget`. -/
def spare : Option BufId := c.lru.reverse.find? fun i => (c.buf i).refcnt == 0

/-- `bget`: the buffer for a block, and the cache with one more reference to it. -/
def bget (dev blockno : Nat) : Option (BufId × Bcache) :=
  match c.lookup dev blockno with
  | some i => some (i, c.setBuf i { c.buf i with refcnt := (c.buf i).refcnt + 1 })
  | none =>
    match c.spare with
    | some i =>
      some (i, c.setBuf i
        { c.buf i with dev := dev, blockno := blockno, valid := false, refcnt := 1 })
    | none => none

/-- `brelse`: a buffer whose last reference goes is the most recently used one. -/
def brelse (i : BufId) : Bcache :=
  let c' := c.setBuf i { c.buf i with refcnt := (c.buf i).refcnt - 1 }
  if (c'.buf i).refcnt = 0 then { c' with lru := i :: c'.lru.erase i } else c'

def bpin (i : BufId) : Bcache := c.setBuf i { c.buf i with refcnt := (c.buf i).refcnt + 1 }

def bunpin (i : BufId) : Bcache := c.setBuf i { c.buf i with refcnt := (c.buf i).refcnt - 1 }

/-- `binit`. -/
def init : Bcache := ⟨fun _ => ⟨false, 0, 0, 0, fun _ => 0⟩, (List.finRange nbuf).reverse⟩

end Bcache

namespace Fs

def setCache (s : Fs) (c : Bcache) : Fs := { s with cache := c }

/-- New contents of a buffer. -/
def setData (s : Fs) (i : BufId) (data : Block) : Fs :=
  s.setCache (s.cache.setBuf i { s.cache.buf i with data := data })

end Fs

/-- `bget`. -/
def bget (dev blockno : Nat) : FsM BufId := do
  let s ← get
  match s.cache.bget dev blockno with
  | some (i, c) =>
    set (s.setCache c)
    return i
  | none => throw .bget

def bread (dev blockno : Nat) : FsM BufId := do
  let i ← bget dev blockno
  let s ← get
  let b := s.cache.buf i
  unless b.valid do
    set (s.setCache (s.cache.setBuf i { b with data := s.disk b.blockno, valid := true }))
  return i

def bwrite (i : BufId) : FsM Unit := do
  let s ← get
  let b := s.cache.buf i
  set { s with disk := update s.disk b.blockno b.data }
  TraceM.emit (b.blockno, b.data)

def brelse (i : BufId) : FsM Unit := modify fun s => s.setCache (s.cache.brelse i)

def bpin (i : BufId) : FsM Unit := modify fun s => s.setCache (s.cache.bpin i)

def bunpin (i : BufId) : FsM Unit := modify fun s => s.setCache (s.cache.bunpin i)

/-! ## References -/

/-- One more reference to a block. -/
def addRef (m : Nat → Nat) (b : Nat) : Nat → Nat := fun x => if x = b then m x + 1 else m x

/-- One reference to a block less. -/
def dropRef (m : Nat → Nat) (b : Nat) : Nat → Nat := fun x => if x = b then m x - 1 else m x

@[simp] theorem dropRef_addRef_self (m : Nat → Nat) (b : Nat) : dropRef (addRef m b) b = m := by
  funext x
  unfold dropRef addRef
  split <;> simp

theorem dropRef_addRef_of_ne (m : Nat → Nat) {a b : Nat} (h : a ≠ b) :
    dropRef (addRef m b) a = addRef (dropRef m a) b := by
  funext x
  unfold dropRef addRef
  by_cases ha : x = a
  · have hb : x ≠ b := fun hb => h (ha.symm.trans hb)
    simp [ha, h]
  · simp [ha]

@[simp] theorem addRef_self (m : Nat → Nat) (b : Nat) : addRef m b b = m b + 1 := if_pos rfl

theorem addRef_of_ne (m : Nat → Nat) {a b : Nat} (h : a ≠ b) : addRef m b a = m a := if_neg h

theorem dropRef_of_ne (m : Nat → Nat) {a b : Nat} (h : a ≠ b) : dropRef m b a = m a := if_neg h

theorem addRef_ne_zero {m : Nat → Nat} {a b : Nat} (h : m a ≠ 0) : addRef m b a ≠ 0 := by
  unfold addRef
  split
  · exact Nat.succ_ne_zero _
  · exact h

/-- **The cache** with `m b` references to each block `b` of the device: every buffer is on the list
once, no block has two buffers, and the counts are right. -/
structure CacheOk (c : Bcache) (m : Nat → Nat) : Prop where
  nodup : c.lru.Nodup
  mem : ∀ i, i ∈ c.lru
  unique : ∀ {i j}, (c.buf i).dev = rootdev → (c.buf j).dev = rootdev →
    (c.buf i).blockno = (c.buf j).blockno → i = j
  busy : ∀ {i}, (c.buf i).refcnt ≠ 0 → (c.buf i).dev = rootdev
  count : ∀ {i}, (c.buf i).dev = rootdev → (c.buf i).refcnt = m (c.buf i).blockno
  cached : ∀ {b}, m b ≠ 0 → ∃ i, (c.buf i).dev = rootdev ∧ (c.buf i).blockno = b

/-- The buffer `i` is the one for block `b`. -/
def Bcache.Has (c : Bcache) (i : BufId) (b : Nat) : Prop :=
  (c.buf i).dev = rootdev ∧ (c.buf i).blockno = b

namespace CacheOk

variable {c : Bcache} {m : Nat → Nat} {b : Nat} {i : BufId}

theorem init_ok : CacheOk Bcache.init fun _ => 0 where
  nodup := nodup_reverse.mpr (nodup_finRange _)
  mem i := mem_reverse.mpr (mem_finRange i)
  unique h := absurd h (by simp [Bcache.init])
  busy h := absurd rfl h
  count h := absurd h (by simp [Bcache.init])
  cached h := absurd rfl h

/-- `bget` finds the buffer of a block that is cached. -/
theorem lookup_of_has (h : CacheOk c m) (hi : c.Has i b) : c.lookup rootdev b = some i := by
  cases hl : c.lookup rootdev b with
  | none =>
    have := List.find?_eq_none.mp hl i (h.mem i)
    simp [hi.1, hi.2] at this
  | some j =>
    have hj := List.find?_some hl
    simp only [Bool.and_eq_true, beq_iff_eq] at hj
    exact congrArg some (h.unique hj.1 hi.1 (hj.2.trans hi.2.symm))

theorem lookup_none (hn : ∀ i, ¬ c.Has i b) : c.lookup rootdev b = none := by
  apply List.find?_eq_none.mpr
  intro i _ hi
  simp only [Bool.and_eq_true, beq_iff_eq] at hi
  exact hn i hi

theorem not_has (h : CacheOk c m) (hn : ∀ i, ¬ c.Has i b) : m b = 0 := by
  by_contra hb
  obtain ⟨i, hi⟩ := h.cached hb
  exact hn i hi

/-- A buffer without references is found if there is one. -/
theorem spare_some (h : CacheOk c m) (hi : (c.buf i).refcnt = 0) :
    ∃ j, c.spare = some j ∧ (c.buf j).refcnt = 0 := by
  cases hs : c.spare with
  | none =>
    have := List.find?_eq_none.mp hs i (mem_reverse.mpr (h.mem i))
    simp [hi] at this
  | some j => exact ⟨j, rfl, by simpa using List.find?_some hs⟩

/-- **A buffer is left** if fewer blocks than there are buffers have references. -/
theorem exists_spare (h : CacheOk c m) {L : Finset Nat} (hL : ∀ b, m b ≠ 0 → b ∈ L)
    (hcard : L.card < nbuf) : ∃ i, (c.buf i).refcnt = 0 := by
  by_contra hall
  have hall : ∀ i, (c.buf i).refcnt ≠ 0 := fun i hi => hall ⟨i, hi⟩
  have hinj : Set.InjOn (fun i => (c.buf i).blockno) (Finset.univ : Finset BufId) := by
    intro i _ j _ hij
    exact h.unique (h.busy (hall i)) (h.busy (hall j)) hij
  have hmap : ∀ i ∈ (Finset.univ : Finset BufId), (c.buf i).blockno ∈ L := by
    intro i _
    apply hL
    rw [← h.count (h.busy (hall i))]
    exact hall i
  have := Finset.card_le_card_of_injOn _ hmap hinj
  rw [Finset.card_univ, Fintype.card_fin] at this
  omega

/-- As many referenced blocks as there are buffers: they are in use for these blocks, all of them. -/
theorem all_busy (h : CacheOk c m) {l : List Nat} (hnd : l.Nodup) (hl : ∀ b ∈ l, m b ≠ 0)
    (hlen : l.length = nbuf) (i : BufId) : (c.buf i).blockno ∈ l ∧ (c.buf i).refcnt ≠ 0 := by
  choose f hdev hno using fun b : { b // b ∈ l } => h.cached (hl b b.2)
  have hinj : Function.Injective f := by
    intro b b' hbb
    exact Subtype.ext ((hno b).symm.trans ((congrArg (fun i => (c.buf i).blockno) hbb).trans (hno b')))
  have hcard : Fintype.card { b // b ∈ l } = Fintype.card BufId := by
    rw [Fintype.card_fin, ← hlen, ← toFinset_card_of_nodup hnd, ← Fintype.card_coe]
    exact Fintype.card_congr (Equiv.subtypeEquivRight fun b => (mem_toFinset).symm)
  obtain ⟨b, rfl⟩ := ((Fintype.bijective_iff_injective_and_card f).mpr ⟨hinj, hcard⟩).2 i
  refine ⟨by rw [hno]; exact b.2, ?_⟩
  rw [h.count (hdev b), hno]
  exact hl b b.2

/-- Another count in one buffer. -/
theorem setRef (h : CacheOk c m) (hi : c.Has i b) {n : Nat} {m' : Nat → Nat} (hn : m' b = n)
    (hm : ∀ x, x ≠ b → m' x = m x) :
    CacheOk (c.setBuf i { c.buf i with refcnt := n }) m' := by
  have hbuf : ∀ j, ((c.setBuf i { c.buf i with refcnt := n }).buf j).dev = (c.buf j).dev ∧
      ((c.setBuf i { c.buf i with refcnt := n }).buf j).blockno = (c.buf j).blockno := by
    intro j
    by_cases hj : j = i
    · subst hj
      simp [Bcache.setBuf]
    · simp [Bcache.setBuf, update_of_ne hj]
  refine ⟨h.nodup, h.mem, ?_, ?_, ?_, ?_⟩
  · intro j k hj hk he
    rw [(hbuf _).1] at hj hk
    rw [(hbuf _).2, (hbuf _).2] at he
    exact h.unique hj hk he
  · intro j hj
    rw [(hbuf j).1]
    by_cases hji : j = i
    · subst hji
      exact hi.1
    · simp only [Bcache.setBuf, update_of_ne hji] at hj
      exact h.busy hj
  · intro j hj
    rw [(hbuf j).1] at hj
    rw [(hbuf j).2]
    by_cases hji : j = i
    · subst hji
      simp [Bcache.setBuf, hi.2, hn]
    · simp only [Bcache.setBuf, update_of_ne hji]
      have hne : (c.buf j).blockno ≠ b := fun hb => hji (h.unique hj hi.1 (hb.trans hi.2.symm))
      rw [hm _ hne]
      exact h.count hj
  · intro x hx
    by_cases hxb : x = b
    · subst hxb
      exact ⟨i, (hbuf i).1.trans hi.1, (hbuf i).2.trans hi.2⟩
    · rw [hm x hxb] at hx
      obtain ⟨j, hj, hjb⟩ := h.cached hx
      exact ⟨j, (hbuf j).1.trans hj, (hbuf j).2.trans hjb⟩

/-- A change of the contents of a buffer. -/
theorem setData (h : CacheOk c m) (data : Block) (valid : Bool) :
    CacheOk (c.setBuf i { c.buf i with data := data, valid := valid }) m := by
  have hbuf : ∀ j, ((c.setBuf i { c.buf i with data := data, valid := valid }).buf j).dev =
      (c.buf j).dev ∧
      ((c.setBuf i { c.buf i with data := data, valid := valid }).buf j).blockno =
        (c.buf j).blockno ∧
      ((c.setBuf i { c.buf i with data := data, valid := valid }).buf j).refcnt =
        (c.buf j).refcnt := by
    intro j
    by_cases hj : j = i
    · subst hj
      simp [Bcache.setBuf]
    · simp [Bcache.setBuf, update_of_ne hj]
  refine ⟨h.nodup, h.mem, ?_, ?_, ?_, ?_⟩
  · intro j k hj hk he
    rw [(hbuf _).1] at hj hk
    rw [(hbuf _).2.1, (hbuf _).2.1] at he
    exact h.unique hj hk he
  · intro j hj
    rw [(hbuf j).2.2] at hj
    rw [(hbuf j).1]
    exact h.busy hj
  · intro j hj
    rw [(hbuf j).1] at hj
    rw [(hbuf j).2.2, (hbuf j).2.1]
    exact h.count hj
  · intro x hx
    obtain ⟨j, hj, hjb⟩ := h.cached hx
    exact ⟨j, (hbuf j).1.trans hj, (hbuf j).2.1.trans hjb⟩

/-- A buffer without references taken for another block. -/
theorem recycle (h : CacheOk c m) (hi : (c.buf i).refcnt = 0) (hn : ∀ j, ¬ c.Has j b) :
    CacheOk (c.setBuf i { c.buf i with dev := rootdev, blockno := b, valid := false, refcnt := 1 })
      (addRef m b) := by
  have hb := h.not_has hn
  have self : (c.setBuf i { c.buf i with dev := rootdev, blockno := b, valid := false, refcnt := 1 }).buf
      i = { c.buf i with dev := rootdev, blockno := b, valid := false, refcnt := 1 } := by
    simp [Bcache.setBuf]
  have other : ∀ {j}, j ≠ i →
      (c.setBuf i { c.buf i with dev := rootdev, blockno := b, valid := false, refcnt := 1 }).buf j =
        c.buf j := fun hj => by simp [Bcache.setBuf, update_of_ne hj]
  refine ⟨h.nodup, h.mem, ?_, ?_, ?_, ?_⟩
  · intro j k hj hk he
    by_cases hji : j = i
    · by_cases hki : k = i
      · exact hji.trans hki.symm
      · subst hji
        rw [other hki] at hk he
        rw [self] at he
        exact absurd ⟨hk, he.symm⟩ (hn k)
    · by_cases hki : k = i
      · subst hki
        rw [other hji] at hj he
        rw [self] at he
        exact absurd ⟨hj, he⟩ (hn j)
      · rw [other hji] at hj he
        rw [other hki] at hk he
        exact h.unique hj hk he
  · intro j hj
    by_cases hji : j = i
    · subst hji
      rw [self]
    · rw [other hji] at hj ⊢
      exact h.busy hj
  · intro j hj
    by_cases hji : j = i
    · subst hji
      rw [self]
      simp [hb]
    · rw [other hji] at hj ⊢
      have hne : (c.buf j).blockno ≠ b := fun he => hn j ⟨hj, he⟩
      rw [addRef_of_ne m hne]
      exact h.count hj
  · intro x hx
    by_cases hxb : x = b
    · subst hxb
      exact ⟨i, by rw [self], by rw [self]⟩
    · rw [addRef_of_ne m hxb] at hx
      obtain ⟨j, hj, hjb⟩ := h.cached hx
      have hji : j ≠ i := by
        rintro rfl
        rw [← hjb, ← h.count hj, hi] at hx
        exact hx rfl
      exact ⟨j, by rw [other hji]; exact hj, by rw [other hji]; exact hjb⟩

/-- The list after a release. -/
theorem toFront (h : CacheOk c m) (i : BufId) : CacheOk { c with lru := i :: c.lru.erase i } m where
  nodup := nodup_cons.mpr ⟨h.nodup.not_mem_erase, h.nodup.erase i⟩
  mem j := by
    by_cases hj : j = i
    · exact hj ▸ mem_cons_self
    · exact mem_cons_of_mem _ ((mem_erase_of_ne hj).mpr (h.mem j))
  unique := h.unique
  busy := h.busy
  count := h.count
  cached := h.cached

/-- `brelse` gives up a reference. -/
theorem brelse (h : CacheOk c m) (hi : c.Has i b) : CacheOk (c.brelse i) (dropRef m b) := by
  have hcount : (c.buf i).refcnt = m b := by
    rw [h.count hi.1, hi.2]
  have hset : CacheOk (c.setBuf i { c.buf i with refcnt := (c.buf i).refcnt - 1 }) (dropRef m b) :=
    h.setRef hi (by simp [dropRef, hcount]) fun x hx => dropRef_of_ne m hx
  unfold Bcache.brelse
  dsimp only
  split
  · exact hset.toFront i
  · exact hset

/-- `bpin` takes a reference. -/
theorem bpin (h : CacheOk c m) (hi : c.Has i b) : CacheOk (c.bpin i) (addRef m b) := by
  have hcount : (c.buf i).refcnt = m b := by
    rw [h.count hi.1, hi.2]
  exact h.setRef hi (by simp [hcount]) fun x hx => addRef_of_ne m hx

/-- `bunpin` gives up a reference. -/
theorem bunpin (h : CacheOk c m) (hi : c.Has i b) : CacheOk (c.bunpin i) (dropRef m b) := by
  have hcount : (c.buf i).refcnt = m b := by
    rw [h.count hi.1, hi.2]
  exact h.setRef hi (by simp [dropRef, hcount]) fun x hx => dropRef_of_ne m hx

/-- **`bget` finds a buffer** for a block with references, or when a buffer is without. -/
theorem bget_some (h : CacheOk c m) (hb : m b ≠ 0 ∨ ∃ i, (c.buf i).refcnt = 0) :
    ∃ i c', c.bget rootdev b = some (i, c') ∧ CacheOk c' (addRef m b) ∧ c'.Has i b ∧
      (∀ j, j ≠ i → c'.buf j = c.buf j) ∧
      (c.Has i b ∧ c'.buf i = { c.buf i with refcnt := (c.buf i).refcnt + 1 } ∨
        (∀ j, ¬ c.Has j b) ∧ (c.buf i).refcnt = 0 ∧ (c'.buf i).valid = false) := by
  by_cases hex : ∃ i, c.Has i b
  · obtain ⟨i, hi⟩ := hex
    refine ⟨i, c.bpin i, ?_, h.bpin hi, ?_, ?_, .inl ⟨hi, ?_⟩⟩
    · unfold Bcache.bget
      rw [h.lookup_of_has hi]
      rfl
    · simpa [Bcache.Has, Bcache.bpin, Bcache.setBuf] using hi
    · intro j hj
      simp [Bcache.bpin, Bcache.setBuf, update_of_ne hj]
    · simp [Bcache.bpin, Bcache.setBuf]
  · have hn : ∀ i, ¬ c.Has i b := fun i hi => hex ⟨i, hi⟩
    have hspare : ∃ i, (c.buf i).refcnt = 0 := hb.resolve_left fun hb => hb (h.not_has hn)
    obtain ⟨i₀, hi₀⟩ := hspare
    obtain ⟨i, hs, hi⟩ := h.spare_some hi₀
    refine ⟨i, _, ?_, h.recycle hi hn, ?_, ?_, .inr ⟨hn, hi, ?_⟩⟩
    · unfold Bcache.bget
      rw [lookup_none hn, hs]
    · simp [Bcache.Has, Bcache.setBuf]
    · intro j hj
      simp [Bcache.setBuf, update_of_ne hj]
    · simp [Bcache.setBuf]

/-- **`bget` runs out** exactly when the block has no buffer and every buffer has references. -/
theorem bget_none (hn : ∀ i, ¬ c.Has i b) (hall : ∀ i, (c.buf i).refcnt ≠ 0) :
    c.bget rootdev b = none := by
  have hs : c.spare = none := by
    apply List.find?_eq_none.mpr
    intro i _
    simpa using hall i
  unfold Bcache.bget
  rw [lookup_none hn, hs]

end CacheOk

end Xv6
