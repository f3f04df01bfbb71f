import Xv6.Lib.RingBuffer
import Xv6.Lib.Transition
import Xv6.Param

/-!
# The virtio disk driver

`virtio_disk_rw` and `virtio_disk_intr` of `kernel/virtio_disk.c`, together with the device. The driver
and the device share `NUM` descriptors and two rings with 16-bit counters: the driver writes the heads
of new chains to `avail`, the device those of finished chains to `used`. The two ends of a ring are
its two counters: the device's place in `avail` is `nread` of that ring, `disk.used_idx` is `nread` of
the other.

A step of a process is what it does between two points at which it may have to wait; it holds
`vdisk_lock` there. The device moves at any time: it fetches a head, and it completes any chain it has
fetched, once. A process calls `virtio_disk_rw` on a buffer whose sleep-lock it holds, as `bread` and
`bwrite` do.
-/

namespace Xv6.Virtio

open Function List

/-- `NUM`. -/
abbrev num : Nat := 8

instance : NeZero num := ⟨by decide⟩

/-- What the address of a descriptor points to: a command header `disk.ops[i]`, the data of a buffer,
or the status byte `disk.info[i].status`. -/
inductive Addr (B : Type) where
  | null
  | op (i : Nat)
  | data (b : B)
  | status (i : Nat)

/-- `struct virtq_desc`; `more` and `write` are the flags `VRING_DESC_F_NEXT` and `VRING_DESC_F_WRITE`. -/
structure Desc (B : Type) where
  addr : Addr B
  len : Nat
  more : Bool
  write : Bool
  next : Nat

/-- `struct virtio_blk_req`. -/
structure Op where
  write : Bool
  sector : UInt32

/-- An entry of `disk.info`. -/
structure Info (B : Type) where
  b : Option B
  status : UInt8

/-- `struct disk`, without its lock, and the field `disk` of the buffers. -/
structure Disk (B : Type) where
  desc : Nat → Desc B
  avail : RingBuffer Nat 16 num
  used : RingBuffer Nat 16 num
  free : Nat → Bool
  info : Nat → Info B
  ops : Nat → Op
  busy : B → Bool

inductive Panic where
  | freeDesc1
  | freeDesc2
  | status
  /-- A completion without a buffer. -/
  | nullBuf
  /-- The loop of `free_chain` went round more often than there are descriptors. -/
  | cycle

variable {B : Type}

/-- `alloc_desc`. -/
def allocDesc (d : Disk B) : Option (Nat × Disk B) :=
  ((List.range num).find? d.free).map fun i => (i, { d with free := update d.free i false })

/-- `free_desc`. -/
def freeDesc (d : Disk B) (i : Nat) : Except Panic (Disk B) :=
  if num ≤ i then .error .freeDesc1
  else if d.free i then .error .freeDesc2
  else .ok { d with
    desc := update d.desc i ⟨.null, 0, false, false, 0⟩, free := update d.free i true }

/-- `free_chain`. -/
def freeChain : Nat → Disk B → Nat → Except Panic (Disk B)
  | 0, _, _ => .error .cycle
  | fuel + 1, d, i =>
    match freeDesc d i with
    | .error e => .error e
    | .ok d' => if (d.desc i).more then freeChain fuel d' (d.desc i).next else .ok d'

/-- The loop of `alloc3_desc`, with the descriptors it has got and the number still to get. -/
def allocLoop (d : Disk B) (got : List Nat) : Nat → Except Panic (Option (List Nat) × Disk B)
  | 0 => .ok (some got, d)
  | n + 1 =>
    match allocDesc d with
    | some (i, d') => allocLoop d' (got ++ [i]) n
    | none =>
      match got.foldlM freeDesc d with
      | .error e => .error e
      | .ok d' => .ok (none, d')

/-- `alloc3_desc`. -/
def alloc3Desc (d : Disk B) : Except Panic (Option (List Nat) × Disk B) := allocLoop d [] 3

/-- The arguments of a call, with the block number of the buffer. -/
structure Req (B : Type) where
  b : B
  write : Bool
  blockno : UInt32

/-- The command for a request: a block has `BSIZE / 512` sectors. -/
def Req.op (r : Req B) : Op := ⟨r.write, r.blockno * UInt32.ofNat (bsize / 512)⟩

/-- A request with the three descriptors of its chain. -/
structure Chain (B : Type) where
  req : Req B
  i₀ : Nat
  i₁ : Nat
  i₂ : Nat

section Driver

variable [DecidableEq B]

/-- The part of `virtio_disk_rw` that formats the descriptors and tells the device. -/
def submit (d : Disk B) (c : Chain B) : Disk B :=
  { d with
    ops := update d.ops c.i₀ c.req.op
    desc := update (update (update d.desc
      c.i₀ ⟨.op c.i₀, 16, true, false, c.i₁⟩)
      c.i₁ ⟨.data c.req.b, bsize, true, !c.req.write, c.i₂⟩)
      c.i₂ ⟨.status c.i₀, 1, false, true, 0⟩
    info := update d.info c.i₀ ⟨some c.req.b, 0xff⟩
    busy := update d.busy c.req.b true
    avail := d.avail.push c.i₀ }

/-- The end of `virtio_disk_rw`, after the request has finished. -/
def finish (d : Disk B) (c : Chain B) : Except Panic (Disk B) :=
  freeChain (num + 1) { d with info := update d.info c.i₀ { d.info c.i₀ with b := none } } c.i₀

/-- One round of the loop of `virtio_disk_intr`. -/
def intrRound (d : Disk B) : Except Panic (Disk B) :=
  let id := d.used.front
  if (d.info id).status ≠ 0 then .error .status
  else
    match (d.info id).b with
    | none => .error .nullBuf
    | some b => .ok { d with busy := update d.busy b false, used := d.used.pop }

/-- The device completes the chain with head `h`: it writes status 0 where the third descriptor says and
adds the head to the used ring. -/
def completed (d : Disk B) (h i : Nat) : Disk B :=
  { d with info := update d.info i { d.info i with status := 0 }, used := d.used.push h }

end Driver

/-! ## Processes and the device -/

/-- Where a process stands in `virtio_disk_rw`. -/
inductive Point (B : Type) where
  | outside
  /-- About to get the lock, to allocate descriptors. -/
  | entering (r : Req B)
  /-- About to allocate, with the lock. -/
  | alloc (r : Req B)
  /-- In `sleep(&disk.free[0], &disk.vdisk_lock)`. -/
  | starved (r : Req B)
  /-- At the test of `b->disk`, with the lock. -/
  | wait (c : Chain B)
  /-- In `sleep(b, &disk.vdisk_lock)`. -/
  | asleep (c : Chain B)
  /-- About to get the lock, to test `b->disk` again. -/
  | waking (c : Chain B)

namespace Point

/-- The request of a process that has no descriptors yet. -/
def asking : Point B → Option (Req B)
  | .entering r | .alloc r | .starved r => some r
  | _ => none

/-- The chain of a process that waits for it. -/
def chain : Point B → Option (Chain B)
  | .wait c | .asleep c | .waking c => some c
  | _ => none

end Point

/-- Who holds `vdisk_lock`: a process or the interrupt handler. -/
inductive Owner (P : Type) where
  | proc (p : P)
  | intr

structure State (P B : Type) where
  disk : Disk B
  /-- The heads the device has fetched and not completed. -/
  fetched : List Nat
  lock : Option (Owner P)
  point : P → Point B
  /-- The holders of the buffers' sleep-locks. -/
  holder : B → Option P
  /-- What the device transferred to or from a buffer since the last call for it. -/
  moves : B → List Op

inductive Act (P B : Type) where
  | lockBuf (p : P) (b : B)
  | unlockBuf (p : P) (b : B)
  | call (p : P) (r : Req B)
  | acquire (p : P)
  | starve (p : P)
  | submit (p : P) (c : Chain B)
  | sleep (p : P)
  | wake (p : P)
  | ret (p : P) (c : Chain B)
  | intrEnter
  | intrRound
  | intrLeave
  | fetch
  | complete (h : Nat)

variable {P : Type} [DecidableEq P] [DecidableEq B]

namespace State

def move (s : State P B) (p : P) (c : Point B) : State P B :=
  { s with point := update s.point p c }

def setLock (s : State P B) (l : Option (Owner P)) : State P B := { s with lock := l }

def setDisk (s : State P B) (d : Disk B) : State P B := { s with disk := d }

/-- The disk as `virtio_disk_init` leaves it. -/
def init (d : Disk B) : State P B := ⟨d, [], none, fun _ => .outside, fun _ => none, fun _ => []⟩

end State

/-- `virtio_disk_init`: all descriptors are free, and the rings are empty. -/
structure Init (d : Disk B) : Prop where
  free : ∀ i, i < num → d.free i = true
  avail : d.avail.nread = 0 ∧ d.avail.nwrite = 0
  used : d.used.nread = 0 ∧ d.used.nwrite = 0

/-- A step of a process, of the interrupt handler or of the device. -/
inductive Step : State P B → Act P B → State P B → Prop
  | lockBuf {s p b} (hh : s.holder b = none) :
      Step s (.lockBuf p b) { s with holder := update s.holder b (some p) }
  | unlockBuf {s p b} (hh : s.holder b = some p) (hp : s.point p = .outside) :
      Step s (.unlockBuf p b) { s with holder := update s.holder b none }
  | call {s p r} (hp : s.point p = .outside) (hh : s.holder r.b = some p) :
      Step s (.call p r) { s.move p (.entering r) with moves := update s.moves r.b [] }
  | acquire {s p r} (hp : s.point p = .entering r) (hl : s.lock = none) :
      Step s (.acquire p) ((s.move p (.alloc r)).setLock (some (.proc p)))
  | starve {s p r d} (hp : s.point p = .alloc r) (ha : alloc3Desc s.disk = .ok (none, d)) :
      Step s (.starve p) (((s.setDisk d).move p (.starved r)).setLock none)
  | wakeAlloc {s p r} (hp : s.point p = .starved r) : Step s (.wake p) (s.move p (.entering r))
  | submit {s p r d i₀ i₁ i₂} (hp : s.point p = .alloc r)
      (ha : alloc3Desc s.disk = .ok (some [i₀, i₁, i₂], d)) :
      Step s (.submit p ⟨r, i₀, i₁, i₂⟩)
        ((s.setDisk (Virtio.submit d ⟨r, i₀, i₁, i₂⟩)).move p (.wait ⟨r, i₀, i₁, i₂⟩))
  | sleep {s p c} (hp : s.point p = .wait c) (hb : s.disk.busy c.req.b = true) :
      Step s (.sleep p) ((s.move p (.asleep c)).setLock none)
  | wake {s p c} (hp : s.point p = .asleep c) : Step s (.wake p) (s.move p (.waking c))
  | reacquire {s p c} (hp : s.point p = .waking c) (hl : s.lock = none) :
      Step s (.acquire p) ((s.move p (.wait c)).setLock (some (.proc p)))
  | ret {s p c d} (hp : s.point p = .wait c) (hb : s.disk.busy c.req.b ≠ true)
      (hf : finish s.disk c = .ok d) :
      Step s (.ret p c) (((s.setDisk d).move p .outside).setLock none)
  | intrEnter {s} (hl : s.lock = none) : Step s .intrEnter (s.setLock (some .intr))
  | intrRound {s d} (hl : s.lock = some .intr) (hu : s.disk.used.nread ≠ s.disk.used.nwrite)
      (hr : intrRound s.disk = .ok d) : Step s .intrRound (s.setDisk d)
  | intrLeave {s} (hl : s.lock = some .intr) (hu : s.disk.used.nread = s.disk.used.nwrite) :
      Step s .intrLeave (s.setLock none)
  | fetch {s} (ha : s.disk.avail.nread ≠ s.disk.avail.nwrite) :
      Step s .fetch { s.setDisk { s.disk with avail := s.disk.avail.pop } with
        fetched := s.disk.avail.front :: s.fetched }
  -- The device follows the chain: command header, data, status byte.
  | complete {s h i j b} (hh : h ∈ s.fetched) (hop : (s.disk.desc h).addr = .op j)
      (hdata : (s.disk.desc (s.disk.desc h).next).addr = .data b)
      (hstatus : (s.disk.desc (s.disk.desc (s.disk.desc h).next).next).addr = .status i) :
      Step s (.complete h) { s.setDisk (completed s.disk h i) with
        fetched := s.fetched.erase h
        moves := update s.moves b (s.moves b ++ [s.disk.ops j]) }

/-! ## Allocating and freeing descriptors -/

section Descriptors

omit [DecidableEq B]

variable {d d' d'' : Disk B} {i n : Nat} {l got : List Nat}

/-- Only `free` and the descriptors differ. -/
structure SameRest (d d' : Disk B) : Prop where
  avail : d'.avail = d.avail
  used : d'.used = d.used
  info : d'.info = d.info
  ops : d'.ops = d.ops
  busy : d'.busy = d.busy

theorem SameRest.refl (d : Disk B) : SameRest d d := ⟨rfl, rfl, rfl, rfl, rfl⟩

theorem SameRest.trans (h : SameRest d d') (h' : SameRest d' d'') : SameRest d d'' :=
  ⟨h'.avail.trans h.avail, h'.used.trans h.used, h'.info.trans h.info, h'.ops.trans h.ops,
    h'.busy.trans h.busy⟩

/-- The descriptors of `l` were free and are taken. -/
structure Took (d d' : Disk B) (l : List Nat) : Prop extends SameRest d d' where
  was : ∀ i ∈ l, i < num ∧ d.free i = true
  nodup : l.Nodup
  free : ∀ i, d'.free i = true ↔ i ∉ l ∧ d.free i = true
  desc : d'.desc = d.desc

/-- The descriptors of `l` were given back. -/
structure GaveBack (d d' : Disk B) (l : List Nat) : Prop extends SameRest d d' where
  free : ∀ i, d'.free i = true ↔ i ∈ l ∨ d.free i = true
  desc : ∀ i, i ∉ l → d'.desc i = d.desc i

/-- **`free_desc`** does not panic on a descriptor that is taken. -/
theorem freeDesc_spec (hi : i < num) (hf : d.free i = false) :
    ∃ d', freeDesc d i = .ok d' ∧ GaveBack d d' [i] := by
  unfold freeDesc
  rw [if_neg (by omega), if_neg (by rw [hf]; decide)]
  refine ⟨_, rfl, ⟨rfl, rfl, rfl, rfl, rfl⟩, ?_, ?_⟩
  · intro j
    by_cases hj : j = i
    · simp [hj]
    · simp [hj]
  · intro j hj
    exact update_of_ne (fun he => hj (mem_singleton.mpr he)) _ _

theorem GaveBack.cons (h : GaveBack d d' [i]) (h' : GaveBack d' d'' l) : GaveBack d d'' (i :: l) := by
  refine ⟨h.toSameRest.trans h'.toSameRest, ?_, ?_⟩
  · intro j
    rw [h'.free, h.free, mem_singleton, mem_cons]
    tauto
  · intro j hj
    rw [mem_cons, not_or] at hj
    rw [h'.desc j hj.2, h.desc j (fun he => hj.1 (mem_singleton.mp he))]

theorem GaveBack.free_of_notMem (h : GaveBack d d' [i]) (hl : (i :: l).Nodup) {j : Nat} (hj : j ∈ l)
    (hf : d.free j = false) : d'.free j = false := by
  rw [← Bool.not_eq_true, h.free, mem_singleton]
  rintro (rfl | hfree)
  · exact (nodup_cons.mp hl).1 hj
  · rw [hf] at hfree
    cases hfree

/-- The loop that gives descriptors back when there were not enough. -/
theorem foldlM_freeDesc (hlt : ∀ i ∈ l, i < num) (hnodup : l.Nodup) (hf : ∀ i ∈ l, d.free i = false) :
    ∃ d', l.foldlM freeDesc d = .ok d' ∧ GaveBack d d' l := by
  induction l generalizing d with
  | nil => exact ⟨d, rfl, .refl d, fun i => by simp, fun _ _ => rfl⟩
  | cons i l ih =>
    obtain ⟨d₁, hfree, hback⟩ := freeDesc_spec (hlt i mem_cons_self) (hf i mem_cons_self)
    obtain ⟨d₂, hfold, hrest⟩ := ih (fun j hj => hlt j (mem_cons_of_mem i hj))
      (nodup_cons.mp hnodup).2
      (fun j hj => hback.free_of_notMem hnodup hj (hf j (mem_cons_of_mem i hj)))
    refine ⟨d₂, ?_, hback.cons hrest⟩
    rw [foldlM_cons, hfree]
    exact hfold

/-- `alloc_desc` takes one descriptor. -/
theorem allocDesc_some (h : allocDesc d = some (i, d')) : Took d d' [i] := by
  obtain ⟨j, hfind, heq⟩ := Option.map_eq_some_iff.mp h
  cases heq
  refine ⟨⟨rfl, rfl, rfl, rfl, rfl⟩, ?_, nodup_singleton i, ?_, rfl⟩
  · intro k hk
    rw [mem_singleton.mp hk]
    exact ⟨mem_range.mp (mem_of_find?_eq_some hfind), List.find?_some hfind⟩
  · intro k
    by_cases hk : k = i
    · simp [hk]
    · simp [hk]

theorem Took.snoc (h : Took d d' got) (h' : Took d' d'' [i]) : Took d d'' (got ++ [i]) := by
  have hi := h'.was i (mem_singleton_self i)
  rw [h.free] at hi
  refine ⟨h.toSameRest.trans h'.toSameRest, ?_, ?_, ?_, h'.desc.trans h.desc⟩
  · intro j hj
    rcases mem_append.mp hj with hj | hj
    · exact h.was j hj
    · rw [mem_singleton.mp hj]
      exact ⟨hi.1, hi.2.2⟩
  · rw [nodup_append]
    refine ⟨h.nodup, nodup_singleton i, ?_⟩
    rintro x hx y hy rfl
    rw [mem_singleton.mp hy] at hx
    exact hi.2.1 hx
  · intro j
    rw [h'.free, h.free, mem_append]
    tauto

/-- What `alloc3_desc` leaves: it has all it wanted, or it changed at most free descriptors. -/
def Allocated (d : Disk B) (n : Nat) : Option (List Nat) → Disk B → Prop
  | some l, d' => Took d d' l ∧ l.length = n
  | none, d' => SameRest d d' ∧ (∀ i, d'.free i = true ↔ d.free i = true) ∧
      ∀ i, d.free i = false → d'.desc i = d.desc i

/-- `alloc3_desc` takes all descriptors it needs or none. -/
theorem allocLoop_spec (h : Took d d' got) :
    ∃ r d'', allocLoop d' got n = .ok (r, d'') ∧ Allocated d (got.length + n) r d'' := by
  induction n generalizing d' got with
  | zero => exact ⟨some got, d', rfl, h, rfl⟩
  | succ n ih =>
    unfold allocLoop
    cases ha : allocDesc d' with
    | some x =>
      obtain ⟨r, d'', hloop, hal⟩ := ih (h.snoc (allocDesc_some ha))
      refine ⟨r, d'', hloop, ?_⟩
      rw [length_append, length_singleton, Nat.add_assoc, Nat.add_comm 1 n] at hal
      exact hal
    | none =>
      have htaken : ∀ i ∈ got, d'.free i = false := by
        intro i hi
        rw [← Bool.not_eq_true, h.free]
        exact fun hnot => hnot.1 hi
      obtain ⟨d'', hfold, hback⟩ := foldlM_freeDesc (fun i hi => (h.was i hi).1) h.nodup htaken
      refine ⟨none, d'', ?_, h.toSameRest.trans hback.toSameRest, ?_, ?_⟩
      · simp only [hfold]
      · intro i
        rw [hback.free, h.free]
        have hwas := h.was i
        tauto
      · intro i hi
        have hnot : i ∉ got := by
          intro hmem
          rw [(h.was i hmem).2] at hi
          cases hi
        rw [hback.desc i hnot, h.desc]

/-- **`alloc3_desc`** does not panic: it takes three descriptors, or none. -/
theorem alloc3Desc_spec (d : Disk B) :
    ∃ r d', alloc3Desc d = .ok (r, d') ∧ Allocated d 3 r d' := by
  have hnone : Took d d [] :=
    ⟨.refl d, fun _ hi => absurd hi not_mem_nil, nodup_nil, fun i => by simp, rfl⟩
  exact allocLoop_spec hnone

end Descriptors

/-- The descriptors of a chain. -/
def Chain.ids (c : Chain B) : List Nat := [c.i₀, c.i₁, c.i₂]

/-- A chain that is in flight: its descriptors are taken and formatted. -/
structure ChainOk (d : Disk B) (c : Chain B) : Prop where
  lt : ∀ i ∈ c.ids, i < num
  nodup : c.ids.Nodup
  taken : ∀ i ∈ c.ids, d.free i = false
  first : d.desc c.i₀ = ⟨.op c.i₀, 16, true, false, c.i₁⟩
  second : d.desc c.i₁ = ⟨.data c.req.b, bsize, true, !c.req.write, c.i₂⟩
  third : d.desc c.i₂ = ⟨.status c.i₀, 1, false, true, 0⟩
  op : d.ops c.i₀ = c.req.op

omit [DecidableEq B] in
/-- **`free_chain`** gives the three descriptors back. -/
theorem freeChain_spec {d : Disk B} {c : Chain B} (h : ChainOk d c) :
    ∃ d', freeChain (num + 1) d c.i₀ = .ok d' ∧ GaveBack d d' c.ids := by
  have hnd := h.nodup
  unfold Chain.ids at hnd
  obtain ⟨h0, hnd'⟩ := nodup_cons.mp hnd
  have hne₁ : c.i₁ ∉ [c.i₀] := fun hmem => h0 (by simp [mem_singleton.mp hmem])
  have hne₂ : c.i₂ ∉ [c.i₀] := fun hmem => h0 (by simp [mem_singleton.mp hmem])
  have hne₃ : c.i₂ ∉ [c.i₁] := fun hmem =>
    (nodup_cons.mp hnd').1 (by simp [mem_singleton.mp hmem])
  obtain ⟨d₁, hf₁, hb₁⟩ := freeDesc_spec (h.lt c.i₀ (by simp [Chain.ids])) (h.taken c.i₀ (by simp [Chain.ids]))
  have htaken₁ := hb₁.free_of_notMem hnd (j := c.i₁) (by simp) (h.taken c.i₁ (by simp [Chain.ids]))
  have htaken₂ := hb₁.free_of_notMem hnd (j := c.i₂) (by simp) (h.taken c.i₂ (by simp [Chain.ids]))
  obtain ⟨d₂, hf₂, hb₂⟩ := freeDesc_spec (h.lt c.i₁ (by simp [Chain.ids])) htaken₁
  have htaken₃ := hb₂.free_of_notMem hnd' (j := c.i₂) (by simp) htaken₂
  obtain ⟨d₃, hf₃, hb₃⟩ := freeDesc_spec (h.lt c.i₂ (by simp [Chain.ids])) htaken₃
  refine ⟨d₃, ?_, hb₁.cons (hb₂.cons hb₃)⟩
  have hsecond : d₁.desc c.i₁ = ⟨.data c.req.b, bsize, true, !c.req.write, c.i₂⟩ := by
    rw [hb₁.desc c.i₁ hne₁, h.second]
  have hthird : d₂.desc c.i₂ = ⟨.status c.i₀, 1, false, true, 0⟩ := by
    rw [hb₂.desc c.i₂ hne₃, hb₁.desc c.i₂ hne₂, h.third]
  simp [freeChain, hf₁, hf₂, hf₃, h.first, hsecond, hthird]

end Xv6.Virtio
