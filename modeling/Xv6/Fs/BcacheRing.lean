import Xv6.Fs.Bio
import Xv6.Lib.Counting
import Xv6.Lib.LinkedRing
import Xv6.Lib.Transition

/-!
# `kernel/bio.c`: the list of buffers

The buffer cache down to its pointers, and the processes that use it. The list is threaded through
`prev` and `next` of the buffers and of `bcache.head`; `bget` walks it twice, `brelse` takes a buffer
out and puts it behind the head. Counts, devices and block numbers are 32-bit words.

The processes interleave at the critical sections of `bcache.lock`: `bread` is the section in `bget`,
then the wait for the buffer's sleep lock, then the read from the disk if the buffer has no data yet;
`brelse` gives the sleep lock back first and enters its section later. What holds in every state that is
reached (`Intact`) needs no order among the processes, but it does need that the counts do not overflow:
a count is 32 bits wide, and `bpin` does not look at it.

Seen from outside, the list is the list of `Xv6.Bcache`, which the log is verified with
(`Bcache.Lists.bget_abs`, `Bcache.Lists.brelse_abs`).
-/

namespace Xv6.Bio

open Function Transition List

/-! ## The cache -/

/-- A `struct buf *` of the list: `&bcache.head`, or a buffer. -/
abbrev Node := Option BufId

/-- `struct buf`, without its sleep lock and the list. -/
structure Buf where
  valid : Bool
  dev : UInt32
  blockno : UInt32
  refcnt : UInt32
  data : Block

/-- `bcache`; `next none` and `prev none` are those of `bcache.head`. -/
structure Bcache where
  buf : BufId → Buf
  next : Node → Node
  prev : Node → Node

namespace Bcache

variable (c : Bcache)

def setBuf (b : BufId) (x : Buf) : Bcache := { c with buf := update c.buf b x }

def setRefcnt (b : BufId) (n : UInt32) : Bcache := c.setBuf b { c.buf b with refcnt := n }

/-- The four assignments that put a buffer behind the head. -/
def pushFront (b : BufId) : Bcache :=
  let next := update c.next (some b) (c.next none)
  let prev := update c.prev (some b) none
  let prev := update prev (next none) (some b)
  { c with next := update next none (some b), prev := prev }

/-- The two assignments that take a buffer out of the list. -/
def unlink (b : BufId) : Bcache :=
  let prev := update c.prev (c.next (some b)) (c.prev (some b))
  { c with next := update c.next (prev (some b)) (c.next (some b)), prev := prev }

/-- The buffers are zero, and the head is linked to itself. -/
def blank : Bcache := ⟨fun _ => ⟨false, 0, 0, 0, fun _ => 0⟩, fun _ => none, fun _ => none⟩

/-- `binit`. -/
def binit : Bcache := (List.finRange nbuf).foldl pushFront blank

/-- The test of a loop, on nodes. -/
def test (p : Buf → Bool) : Node → Bool
  | none => false
  | some b => p (c.buf b)

/-- The first loop of `bget`. -/
def lookup (dev blockno : UInt32) : Option (Option Node) :=
  LinkedRing.scan c.next none (c.test fun x => x.dev == dev && x.blockno == blockno) (nbuf + 1)
    (c.next none)

/-- The second loop of `bget`. -/
def spare : Option (Option Node) :=
  LinkedRing.scan c.prev none (c.test fun x => x.refcnt == 0) (nbuf + 1) (c.prev none)

/-- `bget`: a buffer and the new cache. The inner `none` is the panic, the outer one a loop that did not
come back to the head. -/
def bget (dev blockno : UInt32) : Option (Option (BufId × Bcache)) :=
  match c.lookup dev blockno with
  | none => none
  | some (some (some b)) => some (some (b, c.setRefcnt b ((c.buf b).refcnt + 1)))
  | some _ =>
    match c.spare with
    | none => none
    | some (some (some b)) =>
      some (some (b, c.setBuf b
        { c.buf b with dev := dev, blockno := blockno, valid := false, refcnt := 1 }))
    | some _ => some none

/-- The critical section of `brelse`. -/
def brelse (b : BufId) : Bcache :=
  let c := c.setRefcnt b ((c.buf b).refcnt - 1)
  if (c.buf b).refcnt = 0 then (c.unlink b).pushFront b else c

def bpin (b : BufId) : Bcache := c.setRefcnt b ((c.buf b).refcnt + 1)

def bunpin (b : BufId) : Bcache := c.setRefcnt b ((c.buf b).refcnt - 1)

/-- The end of `bread`: the block is read if the buffer has no data yet. -/
def fill (disk : UInt32 → Block) (b : BufId) : Bcache :=
  if (c.buf b).valid then c
  else c.setBuf b { c.buf b with data := disk (c.buf b).blockno, valid := true }

end Bcache

/-! ## The processes -/

/-- Where a process is. -/
inductive Point where
  | running                 -- outside of `kernel/bio.c`
  | waiting (b : BufId)     -- in `bget`, before `acquiresleep`
  | filling (b : BufId)     -- in `bread`, with the sleep lock
  | releasing (b : BufId)   -- in `brelse`, after `releasesleep`
  deriving DecidableEq

inductive Act where
  | bget (dev blockno : UInt32)
  | acquiresleep
  | fill
  | edit (b : BufId) (data : Block)
  | bwrite (b : BufId)
  | releasesleep (b : BufId)
  | brelse
  | bpin (b : BufId)
  | bunpin (b : BufId)

/-- The cache, the holders of the sleep locks, the processes, and the disk; `pins` counts the calls of
`bpin` that no `bunpin` has taken back. -/
structure State (P : Type) where
  cache : Bcache
  lock : BufId → Option P
  point : P → Point
  pins : BufId → Nat
  disk : UInt32 → Block

variable {P : Type}

namespace State

variable (s : State P)

def move [DecidableEq P] (p : P) (pt : Point) (c : Bcache) : State P :=
  { s with cache := c, point := update s.point p pt }

theorem move_point_self [DecidableEq P] (p : P) (pt : Point) (c : Bcache) :
    (s.move p pt c).point p = pt := update_self ..

def setLock (b : BufId) (o : Option P) : State P := { s with lock := update s.lock b o }

def setPins (b : BufId) (n : Nat) : State P := { s with pins := update s.pins b n }

/-- After `binit`. -/
def init (disk : UInt32 → Block) : State P where
  cache := .binit
  lock _ := none
  point _ := .running
  pins _ := 0
  disk := disk

end State

/-- A process takes its next step. A panic is no step. -/
inductive Step [DecidableEq P] : State P → P × Act → State P → Prop
  | bget {s : State P} {p : P} {dev blockno : UInt32} {b : BufId} {c : Bcache} :
      s.point p = .running → dev ≠ 0 → s.cache.bget dev blockno = some (some (b, c)) →
      Step s (p, .bget dev blockno) (s.move p (.waiting b) c)
  | acquiresleep {s : State P} {p : P} {b : BufId} :
      s.point p = .waiting b → s.lock b = none →
      Step s (p, .acquiresleep) ((s.setLock b (some p)).move p (.filling b) s.cache)
  | fill {s : State P} {p : P} {b : BufId} :
      s.point p = .filling b → Step s (p, .fill) (s.move p .running (s.cache.fill s.disk b))
  | edit {s : State P} {p : P} {b : BufId} {data : Block} :
      s.point p = .running → s.lock b = some p →
      Step s (p, .edit b data)
        (s.move p .running (s.cache.setBuf b { s.cache.buf b with data := data }))
  | bwrite {s : State P} {p : P} {b : BufId} :
      s.point p = .running → s.lock b = some p →
      Step s (p, .bwrite b)
        { s with disk := update s.disk (s.cache.buf b).blockno (s.cache.buf b).data }
  | releasesleep {s : State P} {p : P} {b : BufId} :
      s.point p = .running → s.lock b = some p →
      Step s (p, .releasesleep b) ((s.setLock b none).move p (.releasing b) s.cache)
  | brelse {s : State P} {p : P} {b : BufId} :
      s.point p = .releasing b → Step s (p, .brelse) (s.move p .running (s.cache.brelse b))
  | bpin {s : State P} {p : P} {b : BufId} :
      s.point p = .running →
      Step s (p, .bpin b) ((s.setPins b (s.pins b + 1)).move p .running (s.cache.bpin b))
  | bunpin {s : State P} {p : P} {b : BufId} :
      s.point p = .running → s.pins b ≠ 0 →
      Step s (p, .bunpin b) ((s.setPins b (s.pins b - 1)).move p .running (s.cache.bunpin b))

/-- The reference a process has while it waits for a sleep lock or after it gave it back. -/
def Point.refs (b : BufId) : Point → Nat
  | .waiting b' => if b = b' then 1 else 0
  | .releasing b' => if b = b' then 1 else 0
  | _ => 0

/-- The reference of the holder of a sleep lock. -/
def held : Option P → Nat
  | none => 0
  | some _ => 1

/-- The holders of a buffer: the processes between `bget` and the end of `brelse`. -/
def State.holders [Fintype P] (s : State P) (b : BufId) : Nat :=
  ∑ p, (s.point p).refs b + held (s.lock b)

/-! ## The list -/

namespace Bcache

variable {c : Bcache} {l : List BufId} {b : BufId}

/-- The buffers on the list, from the most recently used one on. -/
structure Lists (c : Bcache) (l : List BufId) : Prop where
  ring : LinkedRing c.next c.prev none (l.map some)
  mem : ∀ b, b ∈ l

theorem nodup_of_ring (h : LinkedRing c.next c.prev none (l.map some)) : l.Nodup :=
  (nodup_cons.mp h.nodup).2.of_map _

theorem Lists.length (h : Lists c l) : l.length = nbuf := by
  have hcard := toFinset_card_of_nodup (nodup_of_ring h.ring)
  have huniv : l.toFinset = Finset.univ := Finset.eq_univ_iff_forall.mpr fun b => mem_toFinset.mpr (h.mem b)
  rw [huniv, Finset.card_univ, Fintype.card_fin] at hcard
  exact hcard.symm

/-- On the list, `pushFront` is `cons`. -/
theorem ring_pushFront (h : LinkedRing c.next c.prev none (l.map some)) (hb : b ∉ l) :
    LinkedRing (c.pushFront b).next (c.pushFront b).prev none ((b :: l).map some) := by
  have hpush := h.push (b := some b) (by simpa using hb)
  have hhead : update c.next (some b) (c.next none) none = c.next none :=
    update_of_ne (by simp) _ _
  unfold pushFront
  dsimp only
  rw [hhead]
  exact hpush

/-- On the list, `unlink` is `erase`. -/
theorem ring_unlink (h : LinkedRing c.next c.prev none (l.map some)) (hb : b ∈ l) :
    LinkedRing (c.unlink b).next (c.unlink b).prev none ((l.erase b).map some) := by
  obtain ⟨l₁, l₂, -, hl, herase⟩ := exists_erase_eq hb
  rw [hl, map_append, map_cons] at h
  have hprev : update c.prev (c.next (some b)) (c.prev (some b)) (some b) = c.prev (some b) :=
    update_of_ne h.next_ne_self.symm _ _
  rw [herase, map_append]
  unfold unlink
  dsimp only
  rw [hprev]
  exact h.unlink

/-- **A released buffer** goes to the front. -/
theorem Lists.toFront (h : Lists c l) (b : BufId) :
    Lists ((c.unlink b).pushFront b) (b :: l.erase b) where
  ring := ring_pushFront (ring_unlink h.ring (h.mem b)) (nodup_of_ring h.ring).not_mem_erase
  mem b' := by
    by_cases hb : b' = b
    · exact hb ▸ mem_cons_self
    · exact mem_cons_of_mem _ ((mem_erase_of_ne hb).mpr (h.mem b'))

theorem Lists.congr {c' : Bcache} (h : Lists c l) (hn : c'.next = c.next) (hp : c'.prev = c.prev) :
    Lists c' l := ⟨by rw [hn, hp]; exact h.ring, h.mem⟩

/-- `binit` links all buffers, the last one first. -/
theorem lists_binit : Lists binit (List.finRange nbuf).reverse := by
  have hfold : ∀ (l l₀ : List BufId) (c : Bcache), LinkedRing c.next c.prev none (l₀.map some) →
      (l ++ l₀).Nodup → LinkedRing (l.foldl pushFront c).next (l.foldl pushFront c).prev none
        ((l.reverse ++ l₀).map some) := by
    intro l
    induction l with
    | nil => exact fun l₀ c h _ => h
    | cons b l ih =>
      intro l₀ c h hnodup
      rw [cons_append, nodup_cons] at hnodup
      have hb : b ∉ l₀ := fun hmem => hnodup.1 (mem_append_right _ hmem)
      have := ih (b :: l₀) (c.pushFront b) (ring_pushFront h hb) (by
        rw [nodup_middle, nodup_cons]
        exact hnodup)
      rw [reverse_cons, append_assoc]
      exact this
  refine ⟨?_, fun b => mem_reverse.mpr (mem_finRange b)⟩
  have := hfold (List.finRange nbuf) [] blank (.empty rfl rfl) (by
    rw [append_nil]
    exact nodup_finRange nbuf)
  rw [append_nil] at this
  exact this

theorem binit_buf (b : BufId) : binit.buf b = ⟨false, 0, 0, 0, fun _ => 0⟩ := by
  have hfold : ∀ (l : List BufId) (c : Bcache), (l.foldl pushFront c).buf = c.buf := by
    intro l
    induction l with
    | nil => exact fun _ => rfl
    | cons b l ih => exact fun c => ih (c.pushFront b)
  unfold binit
  rw [hfold]
  rfl

/-! ## `bget` -/

variable {c' : Bcache} {dev blockno : UInt32}

theorem find?_test (p : Buf → Bool) (l : List BufId) :
    (l.map some).find? (c.test p) = (l.find? fun b => p (c.buf b)).map some := by
  rw [List.find?_map]
  rfl

theorem Lists.lookup_eq (h : Lists c l) (dev blockno : UInt32) :
    c.lookup dev blockno =
      some ((l.find? fun b => (c.buf b).dev == dev && (c.buf b).blockno == blockno).map some) := by
  unfold lookup
  rw [h.ring.scan_eq _ (by rw [length_map, h.length]; omega), find?_test]

theorem Lists.spare_eq (h : Lists c l) :
    c.spare = some ((l.reverse.find? fun b => (c.buf b).refcnt == 0).map some) := by
  have hring := h.ring.reverse
  rw [← map_reverse] at hring
  unfold spare
  rw [hring.scan_eq _ (by rw [length_map, length_reverse, h.length]; omega), find?_test]

/-- **`bget`**, with the list in place of the pointers. -/
theorem Lists.bget_eq (h : Lists c l) (dev blockno : UInt32) :
    c.bget dev blockno = some (
      match l.find? fun b => (c.buf b).dev == dev && (c.buf b).blockno == blockno with
      | some b => some (b, c.setRefcnt b ((c.buf b).refcnt + 1))
      | none => (l.reverse.find? fun b => (c.buf b).refcnt == 0).map fun b =>
        (b, c.setBuf b { c.buf b with dev := dev, blockno := blockno, valid := false, refcnt := 1 })) := by
  unfold bget
  rw [h.lookup_eq]
  cases l.find? fun b => (c.buf b).dev == dev && (c.buf b).blockno == blockno with
  | some b => rfl
  | none =>
    simp only [Option.map_none]
    rw [h.spare_eq]
    cases l.reverse.find? fun b => (c.buf b).refcnt == 0 with
    | some b => rfl
    | none => rfl

/-- What `bget` can do. -/
theorem Lists.bget_cases (h : Lists c l) (hget : c.bget dev blockno = some (some (b, c'))) :
    ((c.buf b).dev = dev ∧ (c.buf b).blockno = blockno ∧ c' = c.setRefcnt b ((c.buf b).refcnt + 1)) ∨
    ((∀ x, (c.buf x).dev = dev → (c.buf x).blockno ≠ blockno) ∧ (c.buf b).refcnt = 0 ∧
      c' = c.setBuf b
        { c.buf b with dev := dev, blockno := blockno, valid := false, refcnt := 1 }) := by
  rw [h.bget_eq, Option.some.injEq] at hget
  cases hfind : l.find? fun b => (c.buf b).dev == dev && (c.buf b).blockno == blockno with
  | some x =>
    rw [hfind] at hget
    cases hget
    have hx := List.find?_some hfind
    simp only [Bool.and_eq_true, beq_iff_eq] at hx
    exact .inl ⟨hx.1, hx.2, rfl⟩
  | none =>
    rw [hfind] at hget
    obtain ⟨x, hx, heq⟩ := Option.map_eq_some_iff.mp hget
    cases heq
    refine .inr ⟨?_, by simpa using List.find?_some hx, rfl⟩
    intro y hdev hno
    have := List.find?_eq_none.mp hfind y (h.mem y)
    simp [hdev, hno] at this

/-! ## Changes of one buffer -/

theorem setBuf_self (x : Buf) : (c.setBuf b x).buf b = x := update_self ..

theorem setBuf_of_ne {b' : BufId} (x : Buf) (hb : b' ≠ b) : (c.setBuf b x).buf b' = c.buf b' :=
  update_of_ne hb ..

/-- A buffer with another count. -/
theorem setRefcnt_buf (n : UInt32) (b' : BufId) :
    (c.setRefcnt b n).buf b' = { c.buf b' with refcnt := if b' = b then n else (c.buf b').refcnt } := by
  by_cases hb : b' = b
  · subst hb
    rw [if_pos rfl]
    exact setBuf_self _
  · rw [if_neg hb]
    exact setBuf_of_ne _ hb

theorem fill_next (disk : UInt32 → Block) : (c.fill disk b).next = c.next := by
  unfold fill
  split <;> rfl

theorem fill_prev (disk : UInt32 → Block) : (c.fill disk b).prev = c.prev := by
  unfold fill
  split <;> rfl

/-- Contents and the valid bit are no part of what the list and the counts speak about. -/
theorem setData_label (data : Block) (valid : Bool) (b' : BufId) :
    ((c.setBuf b { c.buf b with data := data, valid := valid }).buf b').dev = (c.buf b').dev ∧
    ((c.setBuf b { c.buf b with data := data, valid := valid }).buf b').blockno = (c.buf b').blockno ∧
    ((c.setBuf b { c.buf b with data := data, valid := valid }).buf b').refcnt = (c.buf b').refcnt := by
  by_cases hb : b' = b
  · subst hb
    rw [setBuf_self]
    exact ⟨rfl, rfl, rfl⟩
  · rw [setBuf_of_ne _ hb]
    exact ⟨rfl, rfl, rfl⟩

theorem fill_label (disk : UInt32 → Block) (b' : BufId) :
    ((c.fill disk b).buf b').dev = (c.buf b').dev ∧
    ((c.fill disk b).buf b').blockno = (c.buf b').blockno ∧
    ((c.fill disk b).buf b').refcnt = (c.buf b').refcnt := by
  unfold fill
  split
  · exact ⟨rfl, rfl, rfl⟩
  · exact setData_label _ _ b'

theorem brelse_buf (b' : BufId) :
    (c.brelse b).buf b' = (c.setRefcnt b ((c.buf b).refcnt - 1)).buf b' := by
  unfold brelse
  dsimp only
  split <;> rfl

/-- The list after `brelse` still has every buffer. -/
theorem Lists.brelse (h : Lists c l) (b : BufId) : ∃ l', Lists (c.brelse b) l' := by
  have hset : Lists (c.setRefcnt b ((c.buf b).refcnt - 1)) l := h.congr rfl rfl
  unfold Bcache.brelse
  dsimp only
  split
  · exact ⟨_, hset.toFront b⟩
  · exact ⟨l, hset⟩

end Bcache

/-! ## The invariant -/

section Invariant

variable [Fintype P] {s s' : State P} {p : P} {a : P × Act} {b : BufId}

/-- **The cache is intact**: the list has every buffer once, a block has one buffer, and a buffer counts
its holders and pins. -/
structure Intact (s : State P) : Prop where
  list : ∃ l, s.cache.Lists l
  single : ∀ b b', (s.cache.buf b).dev ≠ 0 → (s.cache.buf b).dev = (s.cache.buf b').dev →
    (s.cache.buf b).blockno = (s.cache.buf b').blockno → b = b'
  count : ∀ b, (s.cache.buf b).refcnt.toNat = s.holders b + s.pins b

/-- No count has overflowed. -/
def State.Small (s : State P) : Prop := ∀ b, s.holders b + s.pins b < 2 ^ 32

instance (s : State P) : Decidable s.Small :=
  inferInstanceAs (Decidable (∀ _, _))

theorem holders_setLock (b' : BufId) (o : Option P) (b : BufId) :
    (s.setLock b' o).holders b + (if b = b' then held (s.lock b) else 0) =
      s.holders b + if b = b' then held o else 0 := by
  unfold State.holders State.setLock
  dsimp only
  by_cases hb : b = b'
  · subst hb
    rw [update_self, if_pos rfl, if_pos rfl]
    omega
  · rw [update_of_ne hb, if_neg hb, if_neg hb]

/-- The cache after `binit` is intact. -/
theorem intact_init (disk : UInt32 → Block) : Intact (State.init disk : State P) where
  list := ⟨_, Bcache.lists_binit⟩
  single := by
    intro b b' hdev
    exact absurd (congrArg Buf.dev (Bcache.binit_buf b)) hdev
  count := by
    intro b
    show (Bcache.binit.buf b).refcnt.toNat = _
    rw [Bcache.binit_buf]
    simp [State.holders, State.init, Point.refs, held]

/-- Steps that leave labels and the list alone. -/
theorem Intact.recount (h : Intact s) (hlist : ∃ l, s'.cache.Lists l)
    (hdev : ∀ b, (s'.cache.buf b).dev = (s.cache.buf b).dev)
    (hno : ∀ b, (s'.cache.buf b).blockno = (s.cache.buf b).blockno)
    (hcount : ∀ b, (s'.cache.buf b).refcnt.toNat = s'.holders b + s'.pins b) : Intact s' where
  list := hlist
  single := by
    intro b b'
    rw [hdev, hdev, hno, hno]
    exact h.single b b'
  count := hcount

/-- A step that adds a reference to a buffer that is in use or was found. -/
theorem Intact.addRef (h : Intact s) (hsmall : s'.Small)
    (hcache : s'.cache = s.cache.setRefcnt b ((s.cache.buf b).refcnt + 1))
    (hsum : ∀ x, s'.holders x + s'.pins x = s.holders x + s.pins x + if x = b then 1 else 0) :
    Intact s' := by
  obtain ⟨l, hl⟩ := h.list
  refine h.recount ⟨l, hcache ▸ hl.congr rfl rfl⟩ ?_ ?_ ?_
  · intro x
    rw [hcache, Bcache.setRefcnt_buf]
  · intro x
    rw [hcache, Bcache.setRefcnt_buf]
  · intro x
    have hx := hsum x
    have hold := h.count x
    rw [hcache, Bcache.setRefcnt_buf]
    dsimp only
    by_cases hxb : x = b
    · subst hxb
      have hlt := hsmall x
      rw [if_pos rfl] at hx ⊢
      have hone : (1 : UInt32).toNat = 1 := rfl
      rw [UInt32.toNat_add, hone, Nat.mod_eq_of_lt (by omega)]
      omega
    · rw [if_neg hxb] at hx ⊢
      omega

/-- A step that takes a reference away. -/
theorem Intact.dropRef (h : Intact s) (hlist : ∃ l, s'.cache.Lists l)
    (hcache : ∀ x, s'.cache.buf x = (s.cache.setRefcnt b ((s.cache.buf b).refcnt - 1)).buf x)
    (hsum : ∀ x, s'.holders x + s'.pins x + (if x = b then 1 else 0) = s.holders x + s.pins x) :
    Intact s' := by
  refine h.recount hlist ?_ ?_ ?_
  · intro x
    rw [hcache, Bcache.setRefcnt_buf]
  · intro x
    rw [hcache, Bcache.setRefcnt_buf]
  · intro x
    have hx := hsum x
    have hold := h.count x
    rw [hcache, Bcache.setRefcnt_buf]
    dsimp only
    by_cases hxb : x = b
    · subst hxb
      rw [if_pos rfl] at hx ⊢
      have hone : (1 : UInt32).toNat = 1 := rfl
      rw [UInt32.toNat_sub_of_le _ _ (UInt32.le_iff_toNat_le.mpr (by omega)), hone]
      omega
    · rw [if_neg hxb] at hx ⊢
      omega

/-- **Relabelling** a buffer that nobody refers to, for a block without a buffer. -/
theorem Intact.relabel {dev blockno : UInt32} (h : Intact s)
    (hnew : ∀ x, (s.cache.buf x).dev = dev → (s.cache.buf x).blockno ≠ blockno)
    (hfree : (s.cache.buf b).refcnt = 0)
    (hcache : s'.cache = s.cache.setBuf b
      { s.cache.buf b with dev := dev, blockno := blockno, valid := false, refcnt := 1 })
    (hsum : ∀ x, s'.holders x + s'.pins x = s.holders x + s.pins x + if x = b then 1 else 0) :
    Intact s' := by
  obtain ⟨l, hl⟩ := h.list
  refine ⟨⟨l, hcache ▸ hl.congr rfl rfl⟩, ?_, ?_⟩
  · intro x y hdev hxy hno
    rw [hcache] at hdev hxy hno
    by_cases hx : x = b
    · by_cases hy : y = b
      · rw [hx, hy]
      · rw [hx, Bcache.setBuf_self, Bcache.setBuf_of_ne _ hy] at hxy hno
        exact absurd hno.symm (hnew y hxy.symm)
    · by_cases hy : y = b
      · rw [hy, Bcache.setBuf_self, Bcache.setBuf_of_ne _ hx] at hxy hno
        exact absurd hno (hnew x hxy)
      · rw [Bcache.setBuf_of_ne _ hx] at hdev hxy hno
        rw [Bcache.setBuf_of_ne _ hy] at hxy hno
        exact h.single x y hdev hxy hno
  · intro x
    have hx := hsum x
    have hold := h.count x
    rw [hcache]
    by_cases hxb : x = b
    · subst hxb
      rw [hfree, show (0 : UInt32).toNat = 0 from rfl] at hold
      rw [if_pos rfl] at hx
      rw [Bcache.setBuf_self]
      show (1 : UInt32).toNat = _
      rw [show (1 : UInt32).toNat = 1 from rfl]
      omega
    · rw [if_neg hxb] at hx
      rw [Bcache.setBuf_of_ne _ hxb]
      omega

/-- A step that changes contents or moves a reference from one place to another. -/
theorem Intact.touch (h : Intact s) (hnext : s'.cache.next = s.cache.next)
    (hprev : s'.cache.prev = s.cache.prev)
    (hbuf : ∀ x, (s'.cache.buf x).dev = (s.cache.buf x).dev ∧
      (s'.cache.buf x).blockno = (s.cache.buf x).blockno ∧
      (s'.cache.buf x).refcnt = (s.cache.buf x).refcnt)
    (hsum : ∀ x, s'.holders x + s'.pins x = s.holders x + s.pins x) : Intact s' := by
  obtain ⟨l, hl⟩ := h.list
  refine h.recount ⟨l, hl.congr hnext hprev⟩ (fun x => (hbuf x).1) (fun x => (hbuf x).2.1) ?_
  intro x
  rw [(hbuf x).2.2, hsum x]
  exact h.count x

variable [DecidableEq P]

/-- A process that moves gives up the references of its old point for those of the new one. -/
theorem holders_move {pt₀ : Point} (hp : s.point p = pt₀) (pt : Point) (c : Bcache) (b : BufId) :
    (s.move p pt c).holders b + pt₀.refs b = s.holders b + pt.refs b := by
  have := Counting.sum_update (Point.refs b) s.point p pt
  rw [hp] at this
  unfold State.holders State.move
  dsimp only
  omega

/-- A reference goes from a process to the sleep lock it takes, or back. -/
theorem holders_handover {pt₀ pt : Point} {o : Option P} (hp : s.point p = pt₀)
    (hsame : ∀ x, pt.refs x + (if x = b then held o else 0) =
      pt₀.refs x + if x = b then held (s.lock b) else 0) (x : BufId) :
    ((s.setLock b o).move p pt s.cache).holders x = s.holders x := by
  have hmove := holders_move (s := s.setLock b o) hp pt s.cache x
  have hset := holders_setLock (s := s) b o x
  have hx := hsame x
  by_cases hxb : x = b
  · subst hxb
    simp only [if_true] at hset hx
    omega
  · simp only [if_neg hxb] at hset hx
    omega

/-- **A step** keeps the cache intact as long as the counts do not overflow. -/
theorem Intact.step (h : Intact s) (hstep : Step s a s') (hsmall : s'.Small) : Intact s' := by
  cases hstep with
  | @bget p dev blockno b c hp hdev hget =>
    obtain ⟨l, hl⟩ := h.list
    have hsum : ∀ x, (s.move p (.waiting b) c).holders x + (s.move p (.waiting b) c).pins x =
        s.holders x + s.pins x + if x = b then 1 else 0 := by
      intro x
      have := holders_move hp (.waiting b) c x
      simp only [Point.refs] at this
      show (s.move p (.waiting b) c).holders x + s.pins x = _
      omega
    rcases hl.bget_cases hget with ⟨-, -, hc⟩ | ⟨hnew, hfree, hc⟩
    · exact h.addRef hsmall hc hsum
    · exact h.relabel hnew hfree hc hsum
  | @acquiresleep p b hp hlock =>
    refine h.touch rfl rfl (fun _ => ⟨rfl, rfl, rfl⟩) fun x => congrArg (· + s.pins x) ?_
    exact holders_handover hp (fun x => by simp [Point.refs, held, hlock]) x
  | @fill p b hp =>
    refine h.touch (Bcache.fill_next ..) (Bcache.fill_prev ..) (Bcache.fill_label s.disk) fun x => ?_
    have := holders_move hp .running (s.cache.fill s.disk b) x
    simp only [Point.refs] at this
    show (s.move p .running (s.cache.fill s.disk b)).holders x + s.pins x = _
    omega
  | @edit p b data hp hlock =>
    refine h.touch rfl rfl (Bcache.setData_label data (s.cache.buf b).valid) fun x => ?_
    have := holders_move hp .running (s.cache.setBuf b { s.cache.buf b with data := data }) x
    show (s.move p .running _).holders x + s.pins x = _
    omega
  | @bwrite p b hp hlock => exact h.touch rfl rfl (fun _ => ⟨rfl, rfl, rfl⟩) fun _ => rfl
  | @releasesleep p b hp hlock =>
    refine h.touch rfl rfl (fun _ => ⟨rfl, rfl, rfl⟩) fun x => congrArg (· + s.pins x) ?_
    exact holders_handover hp (fun x => by simp [Point.refs, held, hlock]) x
  | @brelse p b hp =>
    obtain ⟨l, hl⟩ := h.list
    refine h.dropRef (hl.brelse b) Bcache.brelse_buf fun x => ?_
    have := holders_move hp .running (s.cache.brelse b) x
    simp only [Point.refs] at this
    show (s.move p .running _).holders x + s.pins x + _ = _
    omega
  | @bpin p b hp =>
    refine h.addRef hsmall rfl fun x => ?_
    have hmove := holders_move (s := s.setPins b (s.pins b + 1)) hp .running (s.cache.bpin b) x
    change _ = s.holders x + _ at hmove
    show ((s.setPins b (s.pins b + 1)).move p .running (s.cache.bpin b)).holders x +
      update s.pins b (s.pins b + 1) x = _
    rw [update_apply]
    split
    · next hx =>
        subst hx
        omega
    · omega
  | @bunpin p b hp hpin =>
    obtain ⟨l, hl⟩ := h.list
    refine h.dropRef ⟨l, hl.congr rfl rfl⟩ (fun _ => rfl) fun x => ?_
    have hmove := holders_move (s := s.setPins b (s.pins b - 1)) hp .running (s.cache.bunpin b) x
    change _ = s.holders x + _ at hmove
    show ((s.setPins b (s.pins b - 1)).move p .running (s.cache.bunpin b)).holders x +
      update s.pins b (s.pins b - 1) x + _ = _
    rw [update_apply]
    split
    · next hx =>
        subst hx
        omega
    · omega

/-- **A buffer with references keeps its label**, and its data unless the holder of its sleep lock
writes to it. -/
theorem Intact.step_keeps (h : Intact s) (hstep : Step s a s') (hb : (s.cache.buf b).refcnt ≠ 0) :
    (s'.cache.buf b).dev = (s.cache.buf b).dev ∧
    (s'.cache.buf b).blockno = (s.cache.buf b).blockno ∧
    ((s.cache.buf b).valid = true → (s'.cache.buf b).valid = true ∧
      ((s'.cache.buf b).data = (s.cache.buf b).data ∨
        ∃ data, a.2 = .edit b data ∧ s.lock b = some a.1)) := by
  have hset : ∀ (x : BufId) (n : UInt32), s'.cache.buf b = (s.cache.setRefcnt x n).buf b →
      (s'.cache.buf b).dev = (s.cache.buf b).dev ∧
      (s'.cache.buf b).blockno = (s.cache.buf b).blockno ∧
      ((s.cache.buf b).valid = true → (s'.cache.buf b).valid = true ∧
        ((s'.cache.buf b).data = (s.cache.buf b).data ∨
          ∃ data, a.2 = .edit b data ∧ s.lock b = some a.1)) := by
    intro x n heq
    rw [heq, Bcache.setRefcnt_buf]
    exact ⟨rfl, rfl, fun hv => ⟨hv, .inl rfl⟩⟩
  cases hstep with
  | @bget p dev blockno x c hp hdev hget =>
    obtain ⟨l, hl⟩ := h.list
    rcases hl.bget_cases hget with ⟨-, -, rfl⟩ | ⟨-, hfree, rfl⟩
    · exact hset x _ rfl
    · have hbx : b ≠ x := by
        rintro rfl
        exact hb hfree
      show ((s.cache.setBuf x _).buf b).dev = _ ∧ ((s.cache.setBuf x _).buf b).blockno = _ ∧ (_ →
        ((s.cache.setBuf x _).buf b).valid = _ ∧ (((s.cache.setBuf x _).buf b).data = _ ∨ _))
      rw [Bcache.setBuf_of_ne _ hbx]
      exact ⟨rfl, rfl, fun hv => ⟨hv, .inl rfl⟩⟩
  | acquiresleep hp hlock => exact ⟨rfl, rfl, fun hv => ⟨hv, .inl rfl⟩⟩
  | @fill p x hp =>
    have hlabel := Bcache.fill_label (c := s.cache) (b := x) s.disk b
    refine ⟨hlabel.1, hlabel.2.1, fun hv => ?_⟩
    have hsame : (s.cache.fill s.disk x).buf b = s.cache.buf b := by
      unfold Bcache.fill
      split
      · rfl
      · next hx =>
          have hbx : b ≠ x := by
            rintro rfl
            exact hx hv
          exact Bcache.setBuf_of_ne _ hbx
    show ((s.cache.fill s.disk x).buf b).valid = true ∧ (((s.cache.fill s.disk x).buf b).data = _ ∨ _)
    rw [hsame]
    exact ⟨hv, .inl rfl⟩
  | @edit p x data hp hlock =>
    show ((s.cache.setBuf x _).buf b).dev = _ ∧ ((s.cache.setBuf x _).buf b).blockno = _ ∧ (_ →
      ((s.cache.setBuf x _).buf b).valid = _ ∧ (((s.cache.setBuf x _).buf b).data = _ ∨ _))
    by_cases hbx : b = x
    · subst hbx
      rw [Bcache.setBuf_self]
      exact ⟨rfl, rfl, fun hv => ⟨hv, .inr ⟨data, rfl, hlock⟩⟩⟩
    · rw [Bcache.setBuf_of_ne _ hbx]
      exact ⟨rfl, rfl, fun hv => ⟨hv, .inl rfl⟩⟩
  | bwrite hp hlock => exact ⟨rfl, rfl, fun hv => ⟨hv, .inl rfl⟩⟩
  | releasesleep hp hlock => exact ⟨rfl, rfl, fun hv => ⟨hv, .inl rfl⟩⟩
  | @brelse p x hp => exact hset x _ (Bcache.brelse_buf b)
  | @bpin p x hp => exact hset x _ rfl
  | @bunpin p x hp hpin => exact hset x _ rfl

/-- **Buffer cache integrity.** In every state reached without an overflow of a count, the list runs
through all buffers once, a block has one buffer, counts are holders plus pins, and the next step
relabels no buffer with a count. -/
theorem bcache_integrity {disk : UInt32 → Block} {as : List (P × Act)}
    (hrun : Run (fun s a s' => Step s a s' ∧ s'.Small) (State.init disk) as s) :
    Intact s ∧ ∀ a s' b, Step s a s' → (s.cache.buf b).refcnt ≠ 0 →
      (s'.cache.buf b).dev = (s.cache.buf b).dev ∧
      (s'.cache.buf b).blockno = (s.cache.buf b).blockno ∧
      ((s.cache.buf b).valid = true → (s'.cache.buf b).valid = true ∧
        ((s'.cache.buf b).data = (s.cache.buf b).data ∨
          ∃ data, a.2 = .edit b data ∧ s.lock b = some a.1)) := by
  have hintact : Intact s :=
    hrun.invariant (intact_init disk) fun _ _ _ h hstep => h.step hstep.1 hstep.2
  exact ⟨hintact, fun a s' b hstep hb => hintact.step_keeps hstep hb⟩

end Invariant

/-! ## Runs by evaluation -/

section Exec

variable [DecidableEq P] {s s' : State P} {a : P × Act}

/-- A step, computed. -/
def State.exec (s : State P) : P × Act → Option (State P)
  | (p, .bget dev blockno) =>
    match s.point p, s.cache.bget dev blockno with
    | .running, some (some (b, c)) => if dev ≠ 0 then some (s.move p (.waiting b) c) else none
    | _, _ => none
  | (p, .acquiresleep) =>
    match s.point p with
    | .waiting b =>
      if s.lock b = none then some ((s.setLock b (some p)).move p (.filling b) s.cache) else none
    | _ => none
  | (p, .fill) =>
    match s.point p with
    | .filling b => some (s.move p .running (s.cache.fill s.disk b))
    | _ => none
  | (p, .edit b data) =>
    if s.point p = .running ∧ s.lock b = some p then
      some (s.move p .running (s.cache.setBuf b { s.cache.buf b with data := data }))
    else none
  | (p, .bwrite b) =>
    if s.point p = .running ∧ s.lock b = some p then
      some { s with disk := update s.disk (s.cache.buf b).blockno (s.cache.buf b).data }
    else none
  | (p, .releasesleep b) =>
    if s.point p = .running ∧ s.lock b = some p then
      some ((s.setLock b none).move p (.releasing b) s.cache)
    else none
  | (p, .brelse) =>
    match s.point p with
    | .releasing b => some (s.move p .running (s.cache.brelse b))
    | _ => none
  | (p, .bpin b) =>
    if s.point p = .running then some ((s.setPins b (s.pins b + 1)).move p .running (s.cache.bpin b)) else none
  | (p, .bunpin b) =>
    if s.point p = .running ∧ s.pins b ≠ 0 then
      some ((s.setPins b (s.pins b - 1)).move p .running (s.cache.bunpin b))
    else none

theorem State.step_of_exec (h : s.exec a = some s') : Step s a s' := by
  obtain ⟨p, act⟩ := a
  cases act with dsimp only [State.exec] at h
  | bget dev blockno =>
    split at h
    · next hp hget =>
        obtain ⟨hdev, h⟩ := Option.ite_none_right_eq_some.mp h
        exact Option.some.inj h ▸ .bget hp hdev hget
    · cases h
  | acquiresleep =>
    split at h
    · next hp =>
        obtain ⟨hlock, h⟩ := Option.ite_none_right_eq_some.mp h
        exact Option.some.inj h ▸ .acquiresleep hp hlock
    · cases h
  | fill | brelse =>
    split at h
    · next hp =>
        cases h
        constructor
        exact hp
    · cases h
  | edit | bwrite | releasesleep | bpin | bunpin =>
    obtain ⟨hguard, h⟩ := Option.ite_none_right_eq_some.mp h
    cases h
    constructor <;> simp only [hguard, not_false_eq_true, ne_eq]

end Exec

/-- A process that pins a buffer `n` times. -/
theorem pinned {s₀ s : State Unit} {as : List (Unit × Act)} (b : BufId)
    (hrun : Run Step s₀ as s) (hpoint : s.point () = .running) (n : Nat) :
    ∃ as, ∃ s' : State Unit, Run Step s₀ as s' ∧ s'.point () = .running ∧
      s'.lock = s.lock ∧ (s'.cache.buf b).dev = (s.cache.buf b).dev ∧
      (s'.cache.buf b).refcnt = (s.cache.buf b).refcnt + UInt32.ofNat n ∧
      s'.pins b = s.pins b + n := by
  induction n with
  | zero => exact ⟨as, s, hrun, hpoint, rfl, rfl, (UInt32.add_zero _).symm, rfl⟩
  | succ n ih =>
    obtain ⟨as', s', hrun', hpoint', hlock, hdev, hrefcnt, hpins⟩ := ih
    refine ⟨_, _, hrun'.snoc (Step.bpin (b := b) hpoint'), ?_, hlock, ?_, ?_, ?_⟩
    · exact State.move_point_self ..
    · show ((s'.cache.setRefcnt b _).buf b).dev = _
      rw [Bcache.setRefcnt_buf, ← hdev]
    · show ((s'.cache.setRefcnt b ((s'.cache.buf b).refcnt + 1)).buf b).refcnt = _
      rw [Bcache.setRefcnt_buf, hrefcnt]
      dsimp only
      rw [if_pos rfl, UInt32.ofNat_add, UInt32.add_assoc]
      rfl
    · show update s'.pins b (s'.pins b + 1) b = _
      rw [update_self, hpins, Nat.add_assoc]

/-- A process reads a block and pins its buffer `2 ^ 32 - 1` times: with the sleep lock held and all
these pins, the buffer has the count `0`. -/
theorem bcache_integrity_fails : ∃ as b, ∃ s : State Unit,
    Run Step (State.init fun _ _ => 0) as s ∧ (s.cache.buf b).dev = 1 ∧
      s.lock b = some () ∧ s.pins b = 2 ^ 32 - 1 ∧ (s.cache.buf b).refcnt = 0 ∧ ¬ Intact s := by
  have hexec : ([((), Act.bget 1 1), ((), .acquiresleep), ((), .fill)].foldlM State.exec
      (State.init fun _ _ => 0)).any fun s => s.point () = .running ∧ s.lock 0 = some () ∧ s.pins 0 = 0 ∧
        (s.cache.buf 0).dev = 1 ∧ (s.cache.buf 0).refcnt = 1 := by
    decide +kernel
  obtain ⟨s₀, hrun₀, hs₀⟩ := Run.of_exec hexec fun _ _ _ => State.step_of_exec
  obtain ⟨hpoint, hlock₀, hpins₀, hdev₀, hrefcnt₀⟩ := of_decide_eq_true hs₀
  obtain ⟨as, s, hrun, -, hlock, hdev, hrefcnt, hpins⟩ := pinned 0 hrun₀ hpoint (2 ^ 32 - 1)
  rw [hrefcnt₀] at hrefcnt
  rw [hpins₀] at hpins
  have hzero : (s.cache.buf 0).refcnt = 0 := by
    rw [hrefcnt]
    decide
  refine ⟨as, 0, s, hrun, hdev.trans hdev₀, (congrFun hlock 0).trans hlock₀, ?_, hzero, ?_⟩
  · rw [hpins]
    omega
  · intro h
    have hcount := h.count 0
    rw [hzero, hpins, show (0 : UInt32).toNat = 0 from rfl] at hcount
    omega

/-- Two processes ask for one block; the first reads it, writes to it, pins its buffer and releases it. -/
def pinning : List (Bool × Act) :=
  [(true, .bget 1 1), (false, .bget 1 1), (true, .acquiresleep), (true, .fill), (true, .edit 0 fun _ => 7),
    (true, .bpin 0), (true, .releasesleep 0), (true, .brelse)]

/-- After `pinning` the buffer is held twice, by the pin and by the second process, and keeps its block.
-/
theorem bcache_integrity_pin : ∃ s,
    Run (fun s a s' => Step s a s' ∧ s'.Small) (State.init fun _ _ => 0) pinning s ∧
    (s.cache.buf 0).refcnt = 2 ∧ Intact s ∧
    ∀ a s', Step s a s' → (s'.cache.buf 0).dev = 1 ∧ (s'.cache.buf 0).blockno = 1 ∧
      ((s'.cache.buf 0).data = (s.cache.buf 0).data ∨ ∃ data, a.2 = .edit 0 data ∧ s.lock 0 = some a.1) := by
  have hexec : (pinning.foldlM (fun (s : State Bool) a => (s.exec a).filter fun s' => s'.Small)
      (State.init fun _ _ => 0)).any fun s => (s.cache.buf 0).refcnt = 2 ∧ (s.cache.buf 0).dev = 1 ∧
        (s.cache.buf 0).blockno = 1 ∧ (s.cache.buf 0).valid = true := by
    decide +kernel
  have hstep (s : State Bool) (a s') (h : ((s.exec a).filter fun s' => s'.Small) = some s') :
      Step s a s' ∧ s'.Small :=
    (Option.filter_eq_some_iff.mp h).imp State.step_of_exec of_decide_eq_true
  obtain ⟨s, hrun, hs⟩ := Run.of_exec hexec hstep
  obtain ⟨hcount, hdev, hblock, hvalid⟩ := of_decide_eq_true hs
  obtain ⟨hintact, hnext⟩ := bcache_integrity hrun
  refine ⟨s, hrun, hcount, hintact, fun a s' hstep => ?_⟩
  obtain ⟨hdev', hblock', hdata⟩ := hnext a s' 0 hstep (by rw [hcount]; decide)
  exact ⟨hdev'.trans hdev, hblock'.trans hblock, (hdata hvalid).2⟩

/-! ## The list model

The cache as the log sees it: the list instead of the pointers, and numbers instead of words. -/

namespace Bcache

variable {c : Bcache} {l : List BufId}

/-- A buffer with numbers for its words. -/
def Buf.abs (x : Buf) : Xv6.Buf := ⟨x.valid, x.dev.toNat, x.blockno.toNat, x.refcnt.toNat, x.data⟩

/-- The cache with the list `l`. -/
def abs (c : Bcache) (l : List BufId) : Xv6.Bcache := ⟨fun b => Buf.abs (c.buf b), l⟩

theorem abs_setBuf (b : BufId) (x : Buf) :
    (c.setBuf b x).abs l = (c.abs l).setBuf b (Buf.abs x) := by
  unfold abs Xv6.Bcache.setBuf
  congr 1
  funext b'
  by_cases hb : b' = b
  · subst hb
    rw [setBuf_self, update_self]
  · rw [setBuf_of_ne _ hb, update_of_ne hb]

theorem toNat_beq (x y : UInt32) : (x.toNat == y.toNat) = (x == y) := by
  rw [Bool.eq_iff_iff, beq_iff_eq, beq_iff_eq, UInt32.toNat_inj]

/-- **`binit`** is the initial cache of the list model. -/
theorem binit_abs : binit.abs (List.finRange nbuf).reverse = Xv6.Bcache.init := by
  unfold abs Xv6.Bcache.init
  simp only [binit_buf]
  rfl

/-- **`bget`** of the list model. -/
theorem Lists.bget_abs (h : Lists c l) (hroom : ∀ b, (c.buf b).refcnt.toNat + 1 < 2 ^ 32)
    (dev blockno : UInt32) :
    c.bget dev blockno = some none ∧ (c.abs l).bget dev.toNat blockno.toNat = none ∨
    ∃ b c', c.bget dev blockno = some (some (b, c')) ∧ Lists c' l ∧
      (c.abs l).bget dev.toNat blockno.toNat = some (b, c'.abs l) := by
  have hlookup : (c.abs l).lookup dev.toNat blockno.toNat =
      l.find? fun b => (c.buf b).dev == dev && (c.buf b).blockno == blockno := by
    unfold Xv6.Bcache.lookup abs Buf.abs
    simp only [toNat_beq]
  have hspare : (c.abs l).spare = l.reverse.find? fun b => (c.buf b).refcnt == 0 := by
    unfold Xv6.Bcache.spare abs Buf.abs
    simp only [← toNat_beq]
    rfl
  unfold Xv6.Bcache.bget
  rw [h.bget_eq, hlookup, hspare]
  cases l.find? fun b => (c.buf b).dev == dev && (c.buf b).blockno == blockno with
  | some b =>
    refine .inr ⟨b, _, rfl, h.congr rfl rfl, ?_⟩
    dsimp only
    unfold setRefcnt
    rw [abs_setBuf]
    have hcount : ((c.buf b).refcnt + 1).toNat = (c.buf b).refcnt.toNat + 1 := by
      rw [UInt32.toNat_add, show (1 : UInt32).toNat = 1 from rfl, Nat.mod_eq_of_lt (hroom b)]
    unfold Buf.abs
    dsimp only
    rw [hcount]
    rfl
  | none =>
    cases l.reverse.find? fun b => (c.buf b).refcnt == 0 with
    | some b =>
      refine .inr ⟨b, _, rfl, h.congr rfl rfl, ?_⟩
      dsimp only
      rw [abs_setBuf]
      rfl
    | none => exact .inl ⟨rfl, rfl⟩

/-- **`brelse`** of the list model. -/
theorem Lists.brelse_abs (h : Lists c l) {b : BufId} (hb : (c.buf b).refcnt ≠ 0) :
    ∃ l', Lists (c.brelse b) l' ∧ (c.brelse b).abs l' = (c.abs l).brelse b := by
  have hone : 1 ≤ (c.buf b).refcnt.toNat := by
    rw [Nat.one_le_iff_ne_zero]
    exact fun h0 => hb (UInt32.toNat_inj.mp h0)
  have hcount : ((c.buf b).refcnt - 1).toNat = (c.buf b).refcnt.toNat - 1 :=
    UInt32.toNat_sub_of_le _ _ (UInt32.le_iff_toNat_le.mpr hone)
  have hset : Lists (c.setRefcnt b ((c.buf b).refcnt - 1)) l := h.congr rfl rfl
  have habs : (c.setRefcnt b ((c.buf b).refcnt - 1)).abs l =
      (c.abs l).setBuf b { (c.abs l).buf b with refcnt := ((c.abs l).buf b).refcnt - 1 } := by
    unfold setRefcnt
    rw [abs_setBuf]
    unfold Buf.abs
    dsimp only
    rw [hcount]
    rfl
  have hzero : ((c.setRefcnt b ((c.buf b).refcnt - 1)).buf b).refcnt = 0 ↔
      (((c.setRefcnt b ((c.buf b).refcnt - 1)).abs l).buf b).refcnt = 0 := by
    show _ ↔ ((c.setRefcnt b ((c.buf b).refcnt - 1)).buf b).refcnt.toNat = (0 : UInt32).toNat
    exact UInt32.toNat_inj.symm
  unfold Bcache.brelse Xv6.Bcache.brelse
  dsimp only
  rw [← habs]
  by_cases hz : ((c.setRefcnt b ((c.buf b).refcnt - 1)).buf b).refcnt = 0
  · rw [if_pos hz, if_pos (hzero.mp hz)]
    exact ⟨_, hset.toFront b, rfl⟩
  · rw [if_neg hz, if_neg (fun hf => hz (hzero.mpr hf))]
    exact ⟨l, hset, rfl⟩

/-- The calls on the cache, with the buffer `bget` returned. -/
inductive Call
  | bget (dev blockno : UInt32) (b : BufId)
  | brelse (b : BufId)

/-- A call on the ring: `bget` finds a buffer and no count wraps, `brelse` is called by a holder. -/
def Call.Ring (c : Bcache) : Call → Bcache → Prop
  | .bget dev blockno b, c' => (∀ b, (c.buf b).refcnt.toNat + 1 < 2 ^ 32) ∧
      c.bget dev blockno = some (some (b, c'))
  | .brelse b, c' => (c.buf b).refcnt ≠ 0 ∧ c' = c.brelse b

/-- The same call on the list. -/
def Call.Listed (a : Xv6.Bcache) : Call → Xv6.Bcache → Prop
  | .bget dev blockno b, a' => a.bget dev.toNat blockno.toNat = some (b, a')
  | .brelse b, a' => a' = a.brelse b

/-- A call on the ring is one on the list. -/
theorem Call.Ring.listed (c : Bcache) (a : Xv6.Bcache) (call : Call) (c' : Bcache)
    (hl : ∃ l, Lists c l ∧ a = c.abs l) (h : Call.Ring c call c') :
    ∃ a', Call.Listed a call a' ∧ ∃ l, Lists c' l ∧ a' = c'.abs l := by
  obtain ⟨l, hl, rfl⟩ := hl
  cases call with
  | bget dev blockno b =>
    obtain ⟨hroom, h⟩ := h
    rcases hl.bget_abs hroom dev blockno with ⟨hnone, -⟩ | ⟨b', c₁, hsome, hl', habs⟩
    · rw [hnone] at h
      cases h
    · rw [hsome] at h
      cases h
      exact ⟨_, habs, l, hl', rfl⟩
  | brelse b =>
    obtain ⟨hb, rfl⟩ := h
    obtain ⟨l', hl', habs⟩ := hl.brelse_abs hb
    exact ⟨_, rfl, l', hl', habs.symm⟩

/-- **The ring is the list.** After any sequence of `bget` and `brelse` the pointers form a ring through
all buffers, and the list model, given the same calls, returned the same buffers and has the same
contents in the same order of use. -/
theorem calls_refine {calls : List Call} (h : Run Call.Ring binit calls c) :
    ∃ l, Lists c l ∧ Run Call.Listed Xv6.Bcache.init calls (c.abs l) := by
  obtain ⟨_, hrun, l, hl, rfl⟩ := h.simulate ⟨_, lists_binit, binit_abs.symm⟩ Call.Ring.listed
  exact ⟨l, hl, hrun⟩

/-- A call, computed. -/
def Call.exec (c : Bcache) : Call → Option Bcache
  | .bget dev blockno b =>
    match c.bget dev blockno with
    | some (some (b', c')) => if (∀ b, (c.buf b).refcnt.toNat + 1 < 2 ^ 32) ∧ b' = b then some c' else none
    | _ => none
  | .brelse b => if (c.buf b).refcnt ≠ 0 then some (c.brelse b) else none

theorem Call.ring_of_exec {c' : Bcache} {call : Call} (h : call.exec c = some c') : Call.Ring c call c' := by
  cases call with dsimp only [Call.exec] at h
  | bget dev blockno b =>
    split at h
    · next hget =>
        obtain ⟨⟨hroom, rfl⟩, hc⟩ := Option.ite_none_right_eq_some.mp h
        exact ⟨hroom, Option.some.inj hc ▸ hget⟩
    · cases h
  | brelse b =>
    obtain ⟨hb, h⟩ := Option.ite_none_right_eq_some.mp h
    exact ⟨hb, (Option.some.inj h).symm⟩

/-- Two blocks are read; the first one is released and read again, from the same buffer. -/
theorem calls_refine_again : ∃ c l, Lists c l ∧
    Run Call.Listed Xv6.Bcache.init [.bget 1 1 0, .bget 1 2 1, .brelse 0, .bget 1 1 0] (c.abs l) := by
  have hexec : ([.bget 1 1 0, .bget 1 2 1, .brelse 0, .bget 1 1 0].foldlM Call.exec binit).any fun _ => true := by
    decide +kernel
  obtain ⟨c, hrun, -⟩ := Run.of_exec hexec fun _ _ _ => Call.ring_of_exec
  exact ⟨c, calls_refine hrun⟩

end Bcache

end Xv6.Bio
