import Xv6.Lib.RingBuffer
import Xv6.Lib.Transition

/-!
# The console line discipline

`consoleintr` and `consoleread` of `kernel/console.c`: input characters are edited at the end of a ring
of `INPUT_BUF_SIZE` bytes and committed line by line; any number of threads read the committed part.
A step of a reader is what it does between two tests of its loop, and `consoleintr` runs as one step
while nobody holds `cons.lock`. Whether a waiting reader was killed is decided by the environment, and
a sleeping reader may be woken at any time.

What the console is for is said by `Line`, which has no ring and no counters: the list of bytes ever
committed, how many of them were taken, and the tail that can still be edited. `Reflects` connects the
two. Destinations are in kernel memory, so the copy of a byte never fails.
-/

namespace Xv6

open Function List

/-- `INPUT_BUF_SIZE`. -/
abbrev inputBufSize : Nat := 128

/-- `cons`, without its lock. The source's `r` and `e` are the two counters of the ring. -/
structure Console extends RingBuffer UInt8 32 inputBufSize where
  w : BitVec 32

namespace Console

/-- The macro `C(x)`. -/
def ctrl (c : Char) : UInt8 := UInt8.ofNat (c.toNat - '@'.toNat)

def newline : UInt8 := UInt8.ofNat '\n'.toNat

def carriageReturn : UInt8 := UInt8.ofNat '\r'.toNat

/-- The delete key, `'\x7f'`. -/
def del : UInt8 := 0x7f

abbrev r (cons : Console) : BitVec 32 := cons.nread

abbrev e (cons : Console) : BitVec 32 := cons.nwrite

/-- `cons.e--`. -/
def erase (cons : Console) : Console := { cons with toRingBuffer := cons.unpush }

/-- `cons.r++`. -/
def take (cons : Console) : Console := { cons with toRingBuffer := cons.pop }

/-- `cons.r--`. -/
def putBack (cons : Console) : Console := { cons with nread := cons.nread - 1 }

theorem sub_one_lt {x y : BitVec 32} (h : x ≠ y) : (x - 1 - y).toNat < (x - y).toNat := by
  have hne : x - y ≠ 0 := sub_ne_zero.mpr h
  bv_omega

/-- The loop of the `C('U')` case. -/
def killLine (cons : Console) : Console :=
  if cons.e ≠ cons.w ∧ cons.back ≠ newline then killLine cons.erase else cons
termination_by (cons.e - cons.w).toNat
decreasing_by exact sub_one_lt (‹_ ∧ _›.1)

/-- `cons.w = cons.e`. -/
def commit (cons : Console) : Console := { cons with w := cons.e }

/-- The default case, for a character that is accepted. -/
def store (cons : Console) (c : UInt8) : Console :=
  let cons := { cons with toRingBuffer := cons.push c }
  if c = newline ∨ c = ctrl 'D' ∨ cons.e - cons.r = BitVec.ofNat 32 inputBufSize then cons.commit
  else cons

/-- What `consoleintr` does to the buffer. Echoing and `procdump` do not touch it. -/
def consoleintr (cons : Console) (c : UInt8) : Console :=
  if c = ctrl 'P' then cons
  else if c = ctrl 'U' then cons.killLine
  else if c = ctrl 'H' ∨ c = del then if cons.e ≠ cons.w then cons.erase else cons
  else if c ≠ 0 ∧ cons.e - cons.r < BitVec.ofNat 32 inputBufSize then
    cons.store (if c = carriageReturn then newline else c)
  else cons

/-! ## Readers -/

/-- Where a thread stands in `consoleread`. `target` is the argument of its call and `n` what is left
of it. -/
inductive Point where
  | outside
  /-- About to get `cons.lock`. -/
  | entering (target n : Int)
  /-- At the head of the loop, with the lock. -/
  | loop (target n : Int)
  /-- In `sleep(&cons.r, &cons.lock)`. -/
  | asleep (target n : Int)
  /-- Out of the loop, with the lock. -/
  | leaving (target n : Int)

/-- `deliver` copies a byte out, `eof` takes a `^D`, and `ret` is a return from a read of `n` bytes. -/
inductive Act (T : Type) where
  | input (c : UInt8)
  | call (t : T) (n : Int)
  | acquire (t : T)
  | sleep (t : T)
  | wake (t : T)
  | deliver (t : T) (ch : UInt8)
  | eof (t : T)
  | ret (t : T) (n res : Int)

/-- The console with its readers. -/
structure State (T : Type) where
  cons : Console
  /-- The holder of `cons.lock`. -/
  lock : Option T
  point : T → Point

variable {T : Type}

/-- The console after `consoleinit`. -/
def State.init (buf : Fin inputBufSize → UInt8) : State T := ⟨⟨⟨buf, 0, 0⟩, 0⟩, none, fun _ => .outside⟩

def State.setCons (s : State T) (cons : Console) : State T := { s with cons := cons }

section Machine

variable [DecidableEq T]

def State.move (s : State T) (t : T) (p : Point) : State T :=
  { s with point := update s.point t p }

/-- Give the lock up and go to `p`. -/
def State.leave (s : State T) (t : T) (p : Point) : State T := { s.move t p with lock := none }

/-- An input character, or a step of a reader. -/
inductive Step : State T → Act T → State T → Prop
  | input {s c} (hl : s.lock = none) : Step s (.input c) (s.setCons (s.cons.consoleintr c))
  | call {s t n} (hp : s.point t = .outside) : Step s (.call t n) (s.move t (.entering n n))
  | acquire {s t m n} (hp : s.point t = .entering m n) (hl : s.lock = none) :
      Step s (.acquire t) { s.move t (.loop m n) with lock := some t }
  | killed {s t m n} (hp : s.point t = .loop m n) (hn : 0 < n) (hr : s.cons.r = s.cons.w) :
      Step s (.ret t m (-1)) (s.leave t .outside)
  | sleep {s t m n} (hp : s.point t = .loop m n) (hn : 0 < n) (hr : s.cons.r = s.cons.w) :
      Step s (.sleep t) (s.leave t (.asleep m n))
  | wake {s t m n} (hp : s.point t = .asleep m n) : Step s (.wake t) (s.move t (.entering m n))
  -- `^D` after some data: it is put back for the next read.
  | cut {s t m n} (hp : s.point t = .loop m n) (hn : 0 < n) (hr : s.cons.r ≠ s.cons.w)
      (hc : s.cons.front = ctrl 'D') (hm : n < m) :
      Step s (.ret t m (m - n)) ((s.setCons s.cons.take.putBack).leave t .outside)
  | eof {s t m n} (hp : s.point t = .loop m n) (hn : 0 < n) (hr : s.cons.r ≠ s.cons.w)
      (hc : s.cons.front = ctrl 'D') (hm : ¬ n < m) :
      Step s (.eof t) ((s.setCons s.cons.take).move t (.leaving m n))
  | line {s t m n} (hp : s.point t = .loop m n) (hn : 0 < n) (hr : s.cons.r ≠ s.cons.w)
      (hc : s.cons.front ≠ ctrl 'D') (hl : s.cons.front = newline) :
      Step s (.deliver t s.cons.front) ((s.setCons s.cons.take).move t (.leaving m (n - 1)))
  | byte {s t m n} (hp : s.point t = .loop m n) (hn : 0 < n) (hr : s.cons.r ≠ s.cons.w)
      (hc : s.cons.front ≠ ctrl 'D') (hl : s.cons.front ≠ newline) :
      Step s (.deliver t s.cons.front) ((s.setCons s.cons.take).move t (.loop m (n - 1)))
  | done {s t m n} (hp : s.point t = .loop m n) (hn : ¬ 0 < n) :
      Step s (.ret t m (m - n)) (s.leave t .outside)
  | finish {s t m n} (hp : s.point t = .leaving m n) :
      Step s (.ret t m (m - n)) (s.leave t .outside)

end Machine

/-! ## The line discipline without a ring -/

/-- All bytes ever committed, how many of them have been taken by reads, and the tail that can still
be edited. -/
structure Line where
  committed : List UInt8
  taken : Nat
  tail : List UInt8

namespace Line

/-- The committed bytes no read has taken. -/
def pending (l : Line) : List UInt8 := l.committed.drop l.taken

def held (l : Line) : Nat := l.pending.length + l.tail.length

/-- A character is accepted if there is room, and commits the tail if it ends a line or fills the
buffer. -/
def put (l : Line) (c : UInt8) : Line :=
  if l.held < inputBufSize then
    if c = newline ∨ c = ctrl 'D' ∨ l.held + 1 = inputBufSize then
      { l with committed := l.committed ++ (l.tail ++ [c]), tail := [] }
    else { l with tail := l.tail ++ [c] }
  else l

/-- An input character. -/
def input (l : Line) (c : UInt8) : Line :=
  if c = ctrl 'P' then l
  else if c = ctrl 'U' then { l with tail := [] }
  else if c = ctrl 'H' ∨ c = del then { l with tail := l.tail.dropLast }
  else if c = 0 then l
  else l.put (if c = carriageReturn then newline else c)

/-- The line discipline follows the inputs and counts the bytes taken. -/
def act (l : Line) : Act T → Line
  | .input c => l.input c
  | .deliver _ _ | .eof _ => { l with taken := l.taken + 1 }
  | _ => l

/-- The line discipline after a run. -/
def after (as : List (Act T)) : Line := as.foldl act ⟨[], 0, []⟩

theorem after_snoc (as : List (Act T)) (a : Act T) : after (as ++ [a]) = (after as).act a := by
  simp [after]

end Line

/-! ## The ring holds the line -/

/-- The ring holds the pending bytes and the tail, and `w` stands between them. -/
structure Reflects (cons : Console) (l : Line) : Prop where
  contents : cons.contents = l.pending ++ l.tail
  w : cons.w = cons.nread + BitVec.ofNat 32 l.pending.length
  room : cons.size ≤ inputBufSize
  taken : l.taken ≤ l.committed.length
  newline : newline ∉ l.tail

variable {cons : Console} {l : Line}

namespace Reflects

theorem size (h : Reflects cons l) : cons.size = l.held := by
  rw [← cons.length_contents, h.contents, length_append]
  rfl

theorem lt_two_pow {n : Nat} (h : n ≤ inputBufSize) : n < 2 ^ 32 := lt_of_le_of_lt h (by decide)

theorem held_le (h : Reflects cons l) : l.pending.length + l.tail.length ≤ inputBufSize := by
  have hsize := h.size
  have hroom := h.room
  unfold Line.held at hsize
  omega

/-- The test `cons.e != cons.w`. -/
theorem e_eq_w (h : Reflects cons l) : cons.e = cons.w ↔ l.tail = [] := by
  have hle := h.held_le
  have he := cons.nwrite_eq
  rw [h.size] at he
  show cons.nwrite = cons.w ↔ _
  rw [he, h.w]
  constructor
  · intro heq
    have hval := congrArg BitVec.toNat (add_left_cancel heq)
    unfold Line.held at hval
    rw [BitVec.toNat_ofNat, BitVec.toNat_ofNat, Nat.mod_eq_of_lt (lt_two_pow hle),
      Nat.mod_eq_of_lt (lt_two_pow (by omega))] at hval
    apply eq_nil_of_length_eq_zero
    omega
  · intro htail
    simp [Line.held, htail]

/-- The test `cons.r == cons.w`. -/
theorem r_eq_w (h : Reflects cons l) : cons.r = cons.w ↔ l.pending = [] := by
  have hle := h.held_le
  show cons.nread = cons.w ↔ _
  rw [h.w]
  constructor
  · intro heq
    have hval := congrArg BitVec.toNat (left_eq_add.mp heq)
    rw [BitVec.toNat_ofNat, Nat.mod_eq_of_lt (lt_two_pow (by omega))] at hval
    exact eq_nil_of_length_eq_zero hval
  · intro hp
    simp [hp]

/-- The tests of `cons.e - cons.r` against `INPUT_BUF_SIZE`. -/
theorem e_sub_r (h : Reflects cons l) : (cons.e - cons.r).toNat = l.held := h.size

/-- The committed part has `w - r` bytes. -/
theorem w_sub_r (h : Reflects cons l) : (cons.w - cons.r).toNat = l.pending.length := by
  have hle := h.held_le
  show (cons.w - cons.nread).toNat = _
  rw [h.w, add_sub_cancel_left, BitVec.toNat_ofNat, Nat.mod_eq_of_lt (lt_two_pow (by omega))]

/-- The three counters are in order, as differences. -/
theorem ordered (h : Reflects cons l) :
    cons.w - cons.r ≤ cons.e - cons.r ∧ cons.e - cons.r ≤ BitVec.ofNat 32 inputBufSize := by
  refine ⟨?_, ?_⟩
  · rw [BitVec.le_def, h.w_sub_r, h.e_sub_r]
    exact Nat.le_add_right _ _
  · rw [BitVec.le_def, h.e_sub_r]
    exact h.held_le

/-- Erasing takes a byte from the line being typed, never from one that was committed. -/
theorem erase (h : Reflects cons l) (ht : l.tail ≠ []) :
    Reflects cons.erase { l with tail := l.tail.dropLast } ∧ cons.back ∈ l.tail := by
  have hpos : 0 < cons.size := by
    rw [h.size]
    exact Nat.add_pos_right _ (length_pos_iff.mpr ht)
  have hsize : cons.erase.size + 1 = cons.size := RingBuffer.size_unpush hpos
  have hlast := RingBuffer.contents_unpush hpos
  rw [h.contents, ← dropLast_append_getLast ht, ← append_assoc] at hlast
  obtain ⟨hcontents, hback⟩ := append_inj' hlast rfl
  refine ⟨⟨hcontents.symm, h.w, ?_, h.taken, fun hmem => h.newline (mem_of_mem_dropLast hmem)⟩, ?_⟩
  · have hroom := h.room
    omega
  · rw [← singleton_inj.mp hback]
    exact getLast_mem ht

/-- **Kill line** drops the whole tail: there is no newline in it at which the loop could stop. -/
theorem killLine (h : Reflects cons l) : Reflects cons.killLine { l with tail := [] } := by
  induction cons using Console.killLine.induct generalizing l with
  | case1 cons hc ih =>
    rw [Console.killLine, if_pos hc]
    have ht : l.tail ≠ [] := fun ht => hc.1 (h.e_eq_w.mpr ht)
    have herased := ih (h.erase ht).1
    exact herased
  | case2 cons hc =>
    have ht : l.tail = [] := by
      by_contra ht
      have hback : cons.back = Console.newline := by
        by_contra hne
        exact hc ⟨fun he => ht (h.e_eq_w.mp he), hne⟩
      exact h.newline (hback ▸ (h.erase ht).2)
    rw [Console.killLine, if_neg hc, ← ht]
    exact h

theorem push (h : Reflects cons l) (c : UInt8) (hlt : l.held < inputBufSize) :
    (cons.push c).contents = l.pending ++ (l.tail ++ [c]) ∧ (cons.push c).size = l.held + 1 := by
  rw [← h.size] at hlt
  rw [RingBuffer.contents_push c (by decide) (by decide) hlt, h.contents,
    RingBuffer.size_push c (by decide) hlt, h.size, append_assoc]
  exact ⟨rfl, rfl⟩

/-- A byte is appended to the line, and commits it where `put` does. -/
theorem store (h : Reflects cons l) (c : UInt8) (hlt : l.held < inputBufSize) :
    Reflects (cons.store c) (l.put c) := by
  obtain ⟨hcontents, hsize⟩ := h.push c hlt
  have hfull : (cons.push c).nwrite - (cons.push c).nread = BitVec.ofNat 32 inputBufSize ↔
      l.held + 1 = inputBufSize := by
    rw [← hsize, RingBuffer.size_eq_cap (by decide)]
    exact sub_eq_iff_eq_add'
  unfold Console.store Line.put
  rw [if_pos hlt]
  dsimp only
  by_cases hc : c = Console.newline ∨ c = ctrl 'D' ∨ l.held + 1 = inputBufSize
  · rw [if_pos hc, if_pos (hc.imp_right (Or.imp_right hfull.mpr))]
    have hpending : Line.pending { l with committed := l.committed ++ (l.tail ++ [c]), tail := [] } =
        l.pending ++ (l.tail ++ [c]) := drop_append_of_le_length h.taken
    refine ⟨?_, ?_, ?_, ?_, not_mem_nil⟩
    · rw [hpending, append_nil]
      exact hcontents
    · rw [hpending]
      have hlen : (l.pending ++ (l.tail ++ [c])).length = (cons.push c).size := by
        rw [← hcontents, RingBuffer.length_contents]
      rw [hlen]
      exact (cons.push c).nwrite_eq
    · show (cons.push c).size ≤ _
      rw [hsize]
      exact hlt
    · show l.taken ≤ (l.committed ++ _).length
      rw [length_append]
      exact h.taken.trans (Nat.le_add_right _ _)
  · rw [if_neg hc, if_neg fun hc' => hc (hc'.imp_right (Or.imp_right hfull.mp))]
    refine ⟨hcontents, h.w, ?_, h.taken, ?_⟩
    · show (cons.push c).size ≤ _
      rw [hsize]
      exact hlt
    · rw [mem_append, mem_singleton]
      rintro (hmem | hmem)
      · exact h.newline hmem
      · exact hc (.inl hmem.symm)

/-- **An input character** does to the ring what it does to the line. -/
theorem consoleintr (h : Reflects cons l) (c : UInt8) : Reflects (cons.consoleintr c) (l.input c) := by
  unfold Console.consoleintr Line.input
  split
  · exact h
  · split
    · exact h.killLine
    · split
      · by_cases ht : l.tail = []
        · rw [if_neg (not_not.mpr (h.e_eq_w.mpr ht)), ht, dropLast_nil, ← ht]
          exact h
        · rw [if_pos fun he => ht (h.e_eq_w.mp he)]
          exact (h.erase ht).1
      · by_cases hc : c = 0
        · rw [if_pos hc, if_neg fun h => h.1 hc]
          exact h
        · have hroom : cons.e - cons.r < BitVec.ofNat 32 inputBufSize ↔ l.held < inputBufSize := by
            rw [BitVec.lt_def, h.e_sub_r]
            rfl
          rw [if_neg hc]
          by_cases hlt : l.held < inputBufSize
          · rw [if_pos ⟨hc, hroom.mpr hlt⟩]
            exact h.store _ hlt
          · rw [if_neg fun h => hlt (hroom.mp h.2)]
            unfold Line.put
            rw [if_neg hlt]
            exact h

/-- **A reader** takes the first pending byte. -/
theorem take (h : Reflects cons l) (hr : cons.r ≠ cons.w) :
    Reflects cons.take { l with taken := l.taken + 1 } ∧
      l.pending = cons.front :: Line.pending { l with taken := l.taken + 1 } := by
  obtain ⟨c, rest, hp⟩ := exists_cons_of_ne_nil fun hp => hr (h.r_eq_w.mpr hp)
  have hpos : 0 < cons.size := by
    rw [h.size, Line.held, hp, length_cons]
    omega
  have hpop : cons.contents = cons.front :: cons.take.contents := RingBuffer.contents_pop hpos
  rw [h.contents, hp, cons_append, List.cons.injEq] at hpop
  have hrest : Line.pending { l with taken := l.taken + 1 } = rest := by
    unfold Line.pending at hp ⊢
    rw [← tail_drop, hp, tail_cons]
  have hsize : cons.take.size + 1 = cons.size := RingBuffer.size_pop hpos
  refine ⟨⟨?_, ?_, ?_, ?_, h.newline⟩, ?_⟩
  · rw [hrest]
    exact hpop.2.symm
  · rw [hrest]
    show cons.w = cons.nread + 1 + _
    rw [h.w, hp, length_cons, BitVec.ofNat_add, add_assoc, add_comm (BitVec.ofNat 32 rest.length)]
    rfl
  · have hroom := h.room
    omega
  · have hlen := congrArg List.length hp
    unfold Line.pending at hlen
    rw [length_drop, length_cons] at hlen
    show l.taken + 1 ≤ l.committed.length
    omega
  · rw [hp, hrest, hpop.1]

end Reflects

theorem putBack_take (cons : Console) : cons.take.putBack = cons := by
  show (⟨⟨_, cons.nread + 1 - 1, _⟩, _⟩ : Console) = cons
  rw [add_sub_cancel_right]
  rfl

/-! ## What the reads get -/

/-- The bytes taken by reads, in the order in which they were taken. -/
def consumed (as : List (Act T)) : List UInt8 :=
  as.filterMap fun
    | .deliver _ ch => some ch
    | .eof _ => some (ctrl 'D')
    | _ => none

/-- The bytes copied out by reads. -/
def delivered (as : List (Act T)) : List UInt8 :=
  as.filterMap fun
    | .deliver _ ch => some ch
    | _ => none

theorem consumed_snoc (as : List (Act T)) (a : Act T) :
    consumed (as ++ [a]) = consumed as ++ consumed [a] := filterMap_append

theorem delivered_snoc (as : List (Act T)) (a : Act T) :
    delivered (as ++ [a]) = delivered as ++ delivered [a] := filterMap_append

variable [DecidableEq T]

/-- What one action adds to the bytes `t` took since it last called `consoleread`. -/
def gotStep (t : T) (l : List UInt8) : Act T → List UInt8
  | .call u _ => if u = t then [] else l
  | .deliver u ch => if u = t then l ++ [ch] else l
  | .eof u => if u = t then l ++ [ctrl 'D'] else l
  | _ => l

/-- What `t` took since it last called `consoleread`. -/
def got (t : T) (as : List (Act T)) : List UInt8 := as.foldl (gotStep t) []

theorem got_snoc (t : T) (as : List (Act T)) (a : Act T) :
    got t (as ++ [a]) = gotStep t (got t as) a := by
  simp [got]

/-- How a read of `n` bytes ends that took `bs`, when the committed bytes after it are `next`. -/
inductive Outcome (next : List UInt8) (n : Int) : List UInt8 → Int → Prop
  /-- Killed while it waited for more: what it took is not returned. -/
  | killed {bs} (hd : ctrl 'D' ∉ bs) (hl : newline ∉ bs) (hn : bs.length < n) (hnext : next = []) :
      Outcome next n bs (-1)
  | full {bs} (hd : ctrl 'D' ∉ bs) (hl : newline ∉ bs) (hn : bs.length = n.toNat) :
      Outcome next n bs bs.length
  | line {bs} (hd : ctrl 'D' ∉ bs) (hl : newline ∉ bs) (hn : bs.length < n) :
      Outcome next n (bs ++ [newline]) (bs ++ [newline]).length
  /-- A `^D` after some data stays for the next read. -/
  | cut {bs rest} (hd : ctrl 'D' ∉ bs) (hl : newline ∉ bs) (hb : bs ≠ []) (hn : bs.length < n)
      (hnext : next = ctrl 'D' :: rest) : Outcome next n bs bs.length
  | eof : Outcome next n [ctrl 'D'] 0

/-- What a reader that is still in its loop has taken. -/
structure Reading (m n : Int) (bs : List UInt8) : Prop where
  eof : ctrl 'D' ∉ bs
  newline : newline ∉ bs
  length : (bs.length : Int) = m - n
  nonneg : n < m → 0 ≤ n

/-- What a reader has taken at each point of its call. -/
def Took : Point → List UInt8 → Prop
  | .outside, _ => True
  | .entering m n, bs | .loop m n, bs | .asleep m n, bs => Reading m n bs
  | .leaving m n, bs =>
    (bs = [ctrl 'D'] ∧ n = m) ∨ ∃ bs', bs = bs' ++ [newline] ∧ Reading m (n + 1) bs' ∧ 0 ≤ n

/-- The state of a run against its actions. -/
structure Follows (s : State T) (as : List (Act T)) : Prop where
  reflects : Reflects s.cons (.after as)
  bytes : consumed as ++ (Line.after as).pending = (Line.after as).committed
  data : delivered as = (consumed as).filter (· ≠ ctrl 'D')
  took : ∀ t, Took (s.point t) (got t as)

variable {s s' : State T} {a : Act T} {as : List (Act T)} {t : T} {m n : Int}

/-- A step that leaves the buffer alone. -/
theorem Follows.quiet (h : Follows s as) (hcons : s'.cons = s.cons) (hc : consumed [a] = [])
    (hd : delivered [a] = []) (hl : (Line.after as).act a = .after as)
    (htook : ∀ t, Took (s'.point t) (got t (as ++ [a]))) : Follows s' (as ++ [a]) := by
  refine ⟨?_, ?_, ?_, htook⟩
  · rw [hcons, Line.after_snoc, hl]
    exact h.reflects
  · rw [consumed_snoc, hc, append_nil, Line.after_snoc, hl]
    exact h.bytes
  · rw [delivered_snoc, consumed_snoc, hc, hd, append_nil, append_nil]
    exact h.data

/-- A step that takes a byte. -/
theorem Follows.taking (h : Follows s as) (hr : s.cons.r ≠ s.cons.w) (hcons : s'.cons = s.cons.take)
    (hc : consumed [a] = [s.cons.front])
    (hd : delivered [a] = [s.cons.front].filter (· ≠ ctrl 'D'))
    (hl : (Line.after as).act a = { Line.after as with taken := (Line.after as).taken + 1 })
    (htook : ∀ t, Took (s'.point t) (got t (as ++ [a]))) : Follows s' (as ++ [a]) := by
  obtain ⟨hreflects, hpending⟩ := h.reflects.take hr
  refine ⟨?_, ?_, ?_, htook⟩
  · rw [hcons, Line.after_snoc, hl]
    exact hreflects
  · rw [consumed_snoc, hc, Line.after_snoc, hl, append_assoc, singleton_append, ← hpending]
    exact h.bytes
  · rw [delivered_snoc, consumed_snoc, hc, hd, h.data, filter_append]

/-- Only the reader that moves has a new point or takes something. -/
theorem Follows.took_update (h : Follows s as) {p : Point}
    (hother : ∀ u l, u ≠ t → gotStep u l a = l) (hself : Took p (gotStep t (got t as) a)) :
    ∀ u, Took (update s.point t p u) (got u (as ++ [a])) := by
  intro u
  rw [got_snoc]
  by_cases hu : u = t
  · subst hu
    rw [update_self]
    exact hself
  · rw [update_of_ne hu, hother u _ hu]
    exact h.took u

theorem Follows.reading (h : Follows s as) (hp : s.point t = .loop m n) : Reading m n (got t as) := by
  have htook := h.took t
  rw [hp] at htook
  exact htook

theorem Reading.snoc {bs : List UInt8} {c : UInt8} (h : Reading m n bs) (hn : 0 < n)
    (hc : c ≠ ctrl 'D') (hl : c ≠ Console.newline) : Reading m (n - 1) (bs ++ [c]) := by
  refine ⟨?_, ?_, ?_, fun _ => by omega⟩
  · rw [mem_append, mem_singleton]
    exact not_or.mpr ⟨h.eof, fun he => hc he.symm⟩
  · rw [mem_append, mem_singleton]
    exact not_or.mpr ⟨h.newline, fun he => hl he.symm⟩
  · have hlen := h.length
    rw [length_append, length_singleton]
    omega

/-- Nobody has taken the bytes of an input character. -/
theorem Line.input_keeps (l : Line) (c : UInt8) (h : l.taken ≤ l.committed.length) :
    (l.input c).taken = l.taken ∧ (l.input c).committed.take l.taken = l.committed.take l.taken := by
  have hput : ∀ d, (l.put d).taken = l.taken ∧
      (l.put d).committed.take l.taken = l.committed.take l.taken := by
    intro d
    unfold Line.put
    split
    · split
      · exact ⟨rfl, take_append_of_le_length h⟩
      · exact ⟨rfl, rfl⟩
    · exact ⟨rfl, rfl⟩
  unfold Line.input
  split
  · exact ⟨rfl, rfl⟩
  · split
    · exact ⟨rfl, rfl⟩
    · split
      · exact ⟨rfl, rfl⟩
      · split
        · exact ⟨rfl, rfl⟩
        · exact hput _

/-- A step of the console is one of the line. -/
theorem Follows.step (h : Follows s as) (hstep : Step s a s') : Follows s' (as ++ [a]) := by
  cases hstep with
  | @input c hl =>
    obtain ⟨htaken, hkept⟩ := (Line.after as).input_keeps c h.reflects.taken
    have hafter : Line.after (as ++ [Act.input c]) = (Line.after as).input c := Line.after_snoc ..
    refine ⟨?_, ?_, ?_, fun t => ?_⟩
    · rw [hafter]
      exact h.reflects.consoleintr c
    · have hconsumed : consumed as = (Line.after as).committed.take (Line.after as).taken := by
        have hbytes : consumed as ++ (Line.after as).pending =
            (Line.after as).committed.take (Line.after as).taken ++ (Line.after as).pending := by
          rw [h.bytes]
          exact (take_append_drop ..).symm
        exact append_cancel_right hbytes
      rw [consumed_snoc, show consumed [Act.input (T := T) c] = [] from rfl, append_nil, hafter,
        hconsumed, ← hkept, ← htaken]
      exact take_append_drop ..
    · rw [delivered_snoc, consumed_snoc, h.data]
      simp [delivered, consumed]
    · rw [got_snoc]
      exact h.took t
  | call hp =>
    refine h.quiet rfl rfl rfl rfl (h.took_update (fun u l hu => if_neg (Ne.symm hu)) ?_)
    rw [gotStep, if_pos rfl]
    exact ⟨not_mem_nil, not_mem_nil, by simp, fun hlt => absurd hlt (lt_irrefl _)⟩
  | @acquire t m n hp hl =>
    refine h.quiet rfl rfl rfl rfl (h.took_update (fun _ _ _ => rfl) ?_)
    have htook := h.took t
    rw [hp] at htook
    exact htook
  | killed hp hn hr => exact h.quiet rfl rfl rfl rfl (h.took_update (fun _ _ _ => rfl) trivial)
  | sleep hp hn hr => exact h.quiet rfl rfl rfl rfl (h.took_update (fun _ _ _ => rfl) (h.reading hp))
  | @wake t m n hp =>
    refine h.quiet rfl rfl rfl rfl (h.took_update (fun _ _ _ => rfl) ?_)
    have htook := h.took t
    rw [hp] at htook
    exact htook
  | cut hp hn hr hc hm =>
    exact h.quiet (putBack_take _) rfl rfl rfl (h.took_update (fun _ _ _ => rfl) trivial)
  | @eof t m n hp hn hr hc hm =>
    refine h.taking hr rfl (by rw [hc]; rfl) (by simp [hc, delivered]) rfl
      (h.took_update (fun u l hu => if_neg (Ne.symm hu)) ?_)
    -- Nothing was taken before: otherwise the `^D` would have been put back.
    have hread := h.reading hp
    have hle : m ≤ n := Int.not_lt.mp hm
    have hlen := hread.length
    have hnil : got t as = [] := eq_nil_of_length_eq_zero (by omega)
    rw [gotStep, if_pos rfl, hnil]
    refine .inl ⟨rfl, ?_⟩
    rw [hnil, length_nil] at hlen
    omega
  | @line t m n hp hn hr hc hl =>
    refine h.taking hr rfl rfl (by simp [hc, delivered]) rfl
      (h.took_update (fun u l hu => if_neg (Ne.symm hu)) ?_)
    rw [gotStep, if_pos rfl, hl]
    refine .inr ⟨_, rfl, ?_, by omega⟩
    rw [Int.sub_add_cancel]
    exact h.reading hp
  | byte hp hn hr hc hl =>
    refine h.taking hr rfl rfl (by simp [hc, delivered]) rfl
      (h.took_update (fun u l hu => if_neg (Ne.symm hu)) ?_)
    rw [gotStep, if_pos rfl]
    exact (h.reading hp).snoc hn hc hl
  | done hp hn => exact h.quiet rfl rfl rfl rfl (h.took_update (fun _ _ _ => rfl) trivial)
  | finish hp => exact h.quiet rfl rfl rfl rfl (h.took_update (fun _ _ _ => rfl) trivial)

/-- The console follows the line in every run. -/
theorem Follows.run {buf : Fin inputBufSize → UInt8} (hrun : Transition.Run Step (.init buf) as s) :
    Follows s as := by
  induction hrun with
  | nil =>
    have hsize : (State.init (T := T) buf).cons.size = 0 := RingBuffer.size_eq_zero.mpr rfl
    refine ⟨⟨?_, rfl, ?_, le_rfl, not_mem_nil⟩, rfl, rfl, fun _ => trivial⟩
    · rw [RingBuffer.contents, hsize]
      rfl
    · rw [hsize]
      exact Nat.zero_le _
  | snoc _ hs ih => exact ih.step hs

/-- A read that returns has an outcome. -/
theorem Follows.outcome (h : Follows s as) {res : Int} (hstep : Step s (.ret t m res) s') :
    Outcome (Line.after as).pending m (got t as) res := by
  cases hstep with
  | @killed _ _ n hp hn hr =>
    have hread := h.reading hp
    have hlen := hread.length
    refine .killed hread.eof hread.newline (by omega) (length_eq_zero_iff.mp ?_)
    rw [← h.reflects.w_sub_r, hr, BitVec.sub_self]
    rfl
  | @cut _ _ n hp hn hr hc hm =>
    have hread := h.reading hp
    have hlen := hread.length
    rw [← hlen]
    refine .cut hread.eof hread.newline ?_ (by omega) ((h.reflects.take hr).2.trans (by rw [hc]))
    intro hnil
    rw [hnil, length_nil] at hlen
    omega
  | @done _ _ n hp hn =>
    have hread := h.reading hp
    have hlen := hread.length
    rw [← hlen]
    refine .full hread.eof hread.newline ?_
    have hnonneg := hread.nonneg
    omega
  | @finish _ _ n hp =>
    have htook := h.took t
    rw [hp] at htook
    obtain ⟨hbs, hn⟩ | ⟨bs, hbs, hread, hn⟩ := htook
    · rw [hbs, hn, Int.sub_self]
      exact .eof
    · have hlen := hread.length
      have hres : m - n = (bs ++ [newline]).length := by
        rw [length_append, length_singleton]
        push_cast
        omega
      rw [hbs, hres]
      exact .line hread.eof hread.newline (by omega)

/-- **The line discipline.** In every run of input characters and reads: the counters keep
`r ≤ w ≤ e ≤ r + INPUT_BUF_SIZE` as differences; the bytes taken by reads, followed by those between `r`
and `w`, are the committed input, so that what was copied out is the beginning of that input without
its `^D`s; and each read ends as `Outcome` says: a read takes a `^D` only as its first byte and then
returns 0, it stops after a newline, a `^D` after data ends it and stays, and only a read that is killed, with
nothing committed left, does not return the number of bytes it took. -/
theorem consoleread_committed {buf : Fin inputBufSize → UInt8}
    (hrun : Transition.Run Step (.init buf) as s) :
    (s.cons.w - s.cons.r ≤ s.cons.e - s.cons.r ∧
      s.cons.e - s.cons.r ≤ BitVec.ofNat 32 inputBufSize) ∧
    consumed as ++ s.cons.contents.take (s.cons.w - s.cons.r).toNat = (Line.after as).committed ∧
    delivered as <+: (Line.after as).committed.filter (· ≠ ctrl 'D') ∧
    ∀ t n res s', Step s (.ret t n res) s' →
      Outcome (s.cons.contents.take (s.cons.w - s.cons.r).toNat) n (got t as) res := by
  have h := Follows.run hrun
  have hpending : s.cons.contents.take (s.cons.w - s.cons.r).toNat = (Line.after as).pending := by
    rw [h.reflects.w_sub_r, h.reflects.contents, take_left]
  rw [hpending]
  refine ⟨h.reflects.ordered, h.bytes, ?_, fun t n res s' hstep => h.outcome hstep⟩
  rw [h.data, ← h.bytes, filter_append]
  exact prefix_append _ _

/-- The line `a`, ended by a carriage return, and a `^D` behind it: a read gets two bytes and stops. -/
theorem consoleread_committed_line : ∃ (as : List (Act Bool)) (s : State Bool),
    Transition.Run Step (.init fun _ => 0) as s ∧ (Line.after as).committed = [97, newline, ctrl 'D'] ∧
      consumed as = [97, newline] ∧
      consumed as ++ s.cons.contents.take (s.cons.w - s.cons.r).toNat = (Line.after as).committed := by
  have hstart : Transition.Run Step (.init fun _ => 0) ([] : List (Act Bool)) _ := .nil
  have hrun := hstart.snoc (.input (c := 97) rfl)
    |>.snoc (.input (c := carriageReturn) rfl)
    |>.snoc (.input (c := ctrl 'D') rfl)
    |>.snoc (.call (t := true) (n := 5) rfl)
    |>.snoc (.acquire (t := true) (m := 5) (n := 5) rfl rfl)
    |>.snoc (.byte (t := true) (m := 5) (n := 5) rfl (by decide) (by decide) (by decide) (by decide))
    |>.snoc (.line (t := true) (m := 5) (n := 4) rfl (by decide) (by decide) (by decide) (by decide))
    |>.snoc (.finish (t := true) (m := 5) (n := 3) rfl)
  exact ⟨_, _, hrun, by decide, by decide, (consoleread_committed hrun).2.1⟩

/-- The console after `k` characters `a`. -/
def typed (k : Nat) : Console := (fun cons => cons.consoleintr 97)^[k] ⟨⟨fun _ => 0, 0, 0⟩, 0⟩

/-- A read of 200 bytes has got `k` of them. -/
def State.reading (cons : Console) (k : Nat) : State Bool :=
  ⟨cons, some true, update (fun _ => .outside) true (.loop 200 (200 - k))⟩

/-- `k` bytes are typed. -/
theorem typed_run (k : Nat) : Transition.Run Step ((State.init fun _ => 0 : State Bool).setCons (typed 0))
    ((range k).map fun _ => .input 97) ((State.init fun _ => 0).setCons (typed k)) := by
  refine Transition.Run.of_forall (f := fun k => (State.init fun _ => 0 : State Bool).setCons (typed k)) ?_
  intro k _
  unfold typed
  rw [iterate_succ_apply']
  exact .input rfl

/-- `n` bytes are read, one a step. -/
theorem State.reading_run {n : Nat} (hn : n ≤ 200)
    (h : ∀ k < n, (take^[k] cons).r ≠ (take^[k] cons).w ∧ (take^[k] cons).front = 97) :
    Transition.Run Step (State.reading cons 0) ((range n).map fun _ => .deliver true 97)
      (.reading (take^[n] cons) n) := by
  refine Transition.Run.of_forall (f := fun k => State.reading (take^[k] cons) k) ?_
  intro k hk
  obtain ⟨hr, hfront⟩ := h k hk
  have hn' : (0 : Int) < 200 - k := by omega
  have hstep := Step.byte (s := .reading (take^[k] cons) k) (t := true) (m := 200) rfl hn' hr
    (by change (take^[k] cons).front ≠ _; rw [hfront]; decide)
    (by change (take^[k] cons).front ≠ _; rw [hfront]; decide)
  rw [show (State.reading (take^[k] cons) k).cons.front = 97 from hfront] at hstep
  convert hstep using 1
  unfold reading State.move State.setCons
  rw [iterate_succ_apply', update_idem, Nat.cast_succ, ← Int.sub_sub]

/-- **The bytes of a killed reader are lost.** A line that fills the buffer is committed without a
newline. A read takes all of it and waits for more; if it is killed then, it returns `-1`, and
nothing is left for another read. -/
theorem consoleread_loses_killed : ∃ (as : List (Act Bool)) (s s' : State Bool),
    Transition.Run Step (.init fun _ => 0) as s ∧ Step s (.ret true 200 (-1)) s' ∧ s'.cons.r = s'.cons.w ∧
      got true as = replicate 128 97 ∧ (Line.after as).committed = replicate 128 97 := by
  have hread : (∀ k < 128, (take^[k] (typed 128)).r ≠ (take^[k] (typed 128)).w ∧
      (take^[k] (typed 128)).front = 97) ∧ (take^[128] (typed 128)).r = (take^[128] (typed 128)).w := by
    decide +kernel
  have hopen := ((typed_run 128).snoc (.call (t := true) (n := 200) rfl)).snoc
    (.acquire (t := true) (m := 200) (n := 200) rfl rfl)
  generalize typed 128 = full at hread hopen
  have hstart : State.reading full 0 = { ((((State.init fun _ => 0).setCons full).move true
      (.entering 200 200)).move true (.loop 200 200)) with lock := some true } := by
    unfold State.reading State.move
    rw [update_idem]
    rfl
  rw [← hstart] at hopen
  exact ⟨_, _, _, hopen.append (State.reading_run (by decide) hread.1),
    .killed (n := 200 - 128) rfl (by decide) hread.2, hread.2, by decide +kernel, by decide +kernel⟩

end Console

end Xv6
