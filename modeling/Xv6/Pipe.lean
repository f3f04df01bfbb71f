import Xv6.Lib.RingBuffer
import Xv6.Lib.Transition

/-!
# Pipes

`pipewrite` and `piperead` of `kernel/pipe.c`, called by any number of threads. A step is what a thread
does between two points at which it may be interrupted or has to wait: it gets `pi->lock`, it moves one
byte, it goes to sleep, or it leaves. Whether a thread was killed and whether a user copy succeeds is
decided by the environment at each test, and a sleeping thread may be woken at any time; this covers
every `wakeup` and `kkill`.

The buffer is a `RingBuffer` with 32-bit counters. What the writers put in and the readers took out is
read off the actions of a run.
-/

namespace Xv6

/-- `PIPESIZE`. -/
abbrev pipesize : Nat := 512

/-- `struct pipe`, without its lock. -/
structure Pipe extends RingBuffer UInt8 32 pipesize where
  readopen : Bool
  writeopen : Bool

namespace Pipe

/-- `pi->nwrite == pi->nread + PIPESIZE`. -/
def Full (pi : Pipe) : Prop := pi.nwrite = pi.nread + BitVec.ofNat 32 pipesize

/-- `pi->nread == pi->nwrite`. -/
def Empty (pi : Pipe) : Prop := pi.nread = pi.nwrite

instance (pi : Pipe) : Decidable pi.Full := inferInstanceAs (Decidable (_ = _))

instance (pi : Pipe) : Decidable pi.Empty := inferInstanceAs (Decidable (_ = _))

/-- `pi->data[pi->nwrite++ % PIPESIZE] = ch`. -/
def put (pi : Pipe) (ch : UInt8) : Pipe := { pi with toRingBuffer := pi.push ch }

/-- `pi->nread++`. -/
def take (pi : Pipe) : Pipe := { pi with toRingBuffer := pi.pop }

/-- The pipe part of `pipealloc`: the page comes with whatever was in it. -/
def alloc (data : Fin pipesize → UInt8) : Pipe where
  data := data
  nread := 0
  nwrite := 0
  readopen := true
  writeopen := true

/-- What `pipeclose` does to a pipe whose other end is open. -/
def close (pi : Pipe) (writable : Bool) : Pipe :=
  if writable then { pi with writeopen := false } else { pi with readopen := false }

end Pipe

/-! ## Threads -/

/-- Where a thread stands. `n` is the argument of its call and `i` its loop variable. -/
inductive PipePoint where
  | outside
  /-- At the head of the loop of `pipewrite`, with the lock. -/
  | write (i n : Int)
  /-- About to get the lock for the head of that loop. -/
  | writeLock (i n : Int)
  /-- In `sleep(&pi->nwrite, &pi->lock)`. -/
  | writeSleep (i n : Int)
  /-- At the head of the waiting loop of `piperead`, with the lock. -/
  | await (n : Int)
  | awaitLock (n : Int)
  /-- In `sleep(&pi->nread, &pi->lock)`. -/
  | awaitSleep (n : Int)
  /-- At the head of the copying loop of `piperead`, with the lock. -/
  | read (i n : Int)

/-- `accept` and `deliver` move a byte, `fault` is a user copy that fails, and `ret` a return. -/
inductive PipeAct (T : Type) where
  | call (t : T)
  | acquire (t : T)
  | sleep (t : T)
  | wake (t : T)
  | start (t : T)
  | accept (t : T) (ch : UInt8)
  | deliver (t : T) (ch : UInt8)
  | fault (t : T) (res : Int)
  | ret (t : T) (res : Int)
  | close (writable : Bool)

structure PipeState (T : Type) where
  pipe : Pipe
  /-- The holder of `pi->lock`. -/
  lock : Option T
  point : T → PipePoint

variable {T : Type}

namespace PipeState

def init (pi : Pipe) : PipeState T := ⟨pi, none, fun _ => .outside⟩

def setPipe (s : PipeState T) (pi : Pipe) : PipeState T := { s with pipe := pi }

variable [DecidableEq T]

def move (s : PipeState T) (t : T) (c : PipePoint) : PipeState T :=
  { s with point := Function.update s.point t c }

/-- Give the lock up and go to `c`. -/
def leave (s : PipeState T) (t : T) (c : PipePoint) : PipeState T := { s.move t c with lock := none }

/-- The steps of `pipewrite`, of `piperead`, and of closing an end. -/
inductive Step : PipeState T → PipeAct T → PipeState T → Prop
  | callWrite {s t n} (hp : s.point t = .outside) : Step s (.call t) (s.move t (.writeLock 0 n))
  | lockWrite {s t i n} (hp : s.point t = .writeLock i n) (hl : s.lock = none) :
      Step s (.acquire t) { s.move t (.write i n) with lock := some t }
  | writeFail {s t i n killed} (hp : s.point t = .write i n) (hi : i < n)
      (hf : s.pipe.readopen = false ∨ killed = true) : Step s (.ret t (-1)) (s.leave t .outside)
  | writeFull {s t i n} (hp : s.point t = .write i n) (hi : i < n)
      (ho : s.pipe.readopen = true) (hf : s.pipe.Full) :
      Step s (.sleep t) (s.leave t (.writeSleep i n))
  | wakeWrite {s t i n} (hp : s.point t = .writeSleep i n) : Step s (.wake t) (s.move t (.writeLock i n))
  | writeFault {s t i n} (hp : s.point t = .write i n) (hi : i < n)
      (ho : s.pipe.readopen = true) (hf : ¬ s.pipe.Full) :
      Step s (.fault t i) (s.leave t .outside)
  | writeByte {s t i n ch} (hp : s.point t = .write i n) (hi : i < n)
      (ho : s.pipe.readopen = true) (hf : ¬ s.pipe.Full) :
      Step s (.accept t ch) ((s.setPipe (s.pipe.put ch)).move t (.write (i + 1) n))
  | writeDone {s t i n} (hp : s.point t = .write i n) (hi : ¬ i < n) :
      Step s (.ret t i) (s.leave t .outside)
  | callRead {s t n} (hp : s.point t = .outside) : Step s (.call t) (s.move t (.awaitLock n))
  | lockRead {s t n} (hp : s.point t = .awaitLock n) (hl : s.lock = none) :
      Step s (.acquire t) { s.move t (.await n) with lock := some t }
  | readFail {s t n} (hp : s.point t = .await n) (he : s.pipe.Empty)
      (ho : s.pipe.writeopen = true) : Step s (.ret t (-1)) (s.leave t .outside)
  | readEmpty {s t n} (hp : s.point t = .await n) (he : s.pipe.Empty)
      (ho : s.pipe.writeopen = true) : Step s (.sleep t) (s.leave t (.awaitSleep n))
  | wakeRead {s t n} (hp : s.point t = .awaitSleep n) : Step s (.wake t) (s.move t (.awaitLock n))
  | readStart {s t n} (hp : s.point t = .await n)
      (he : ¬ (s.pipe.Empty ∧ s.pipe.writeopen = true)) : Step s (.start t) (s.move t (.read 0 n))
  | readFault {s t i n} (hp : s.point t = .read i n) (hi : i < n) (he : ¬ s.pipe.Empty) :
      Step s (.fault t (if i = 0 then -1 else i)) (s.leave t .outside)
  | readByte {s t i n} (hp : s.point t = .read i n) (hi : i < n) (he : ¬ s.pipe.Empty) :
      Step s (.deliver t s.pipe.front) ((s.setPipe s.pipe.take).move t (.read (i + 1) n))
  | readDone {s t i n} (hp : s.point t = .read i n) (hi : ¬ i < n ∨ s.pipe.Empty) :
      Step s (.ret t i) (s.leave t .outside)
  | close {s writable} (hl : s.lock = none) : Step s (.close writable) (s.setPipe (s.pipe.close writable))

end PipeState

/-! ## Lossless -/

/-- The bytes accepted from writers in a run. -/
def accepted (as : List (PipeAct T)) : List UInt8 :=
  as.filterMap fun
    | .accept _ ch => some ch
    | _ => none

/-- The bytes delivered to readers in a run. -/
def delivered (as : List (PipeAct T)) : List UInt8 :=
  as.filterMap fun
    | .deliver _ ch => some ch
    | _ => none

theorem Pipe.size_lt {pi : Pipe} (h : pi.size ≤ pipesize) (hf : ¬ pi.Full) : pi.size < pipesize := by
  apply lt_of_le_of_ne h
  intro heq
  exact hf ((RingBuffer.size_eq_cap (by decide)).mp heq)

theorem Pipe.size_pos {pi : Pipe} (he : ¬ pi.Empty) : 0 < pi.size := by
  apply Nat.pos_of_ne_zero
  intro heq
  exact he (RingBuffer.size_eq_zero.mp heq)

theorem Pipe.close_ring (pi : Pipe) (writable : Bool) :
    (pi.close writable).toRingBuffer = pi.toRingBuffer := by
  cases writable with
  | true => rfl
  | false => rfl

/-- What one step does to the buffer. -/
inductive Moved : Pipe → PipeAct T → Pipe → Prop
  | put {pi t ch} (h : ¬ pi.Full) : Moved pi (.accept t ch) (pi.put ch)
  | take {pi t} (h : ¬ pi.Empty) : Moved pi (.deliver t pi.front) pi.take
  | same {pi pi' a} (h : pi'.toRingBuffer = pi.toRingBuffer) (ha : accepted [a] = [])
      (hd : delivered [a] = []) : Moved pi a pi'

theorem PipeState.Step.moved [DecidableEq T] {s s' : PipeState T} {a : PipeAct T} (h : Step s a s') :
    Moved s.pipe a s'.pipe := by
  cases h with
  | writeByte _ _ _ hf => exact .put hf
  | readByte _ _ he => exact .take he
  | close _ => exact .same (Pipe.close_ring _ _) rfl rfl
  | _ => exact .same rfl rfl rfl

/-- Nothing is lost between the writers and the readers. -/
structure Lossless (pi : Pipe) (as : List (PipeAct T)) : Prop where
  bytes : delivered as ++ pi.contents = accepted as
  size : pi.size ≤ pipesize

/-- No step loses or invents a byte. -/
theorem Lossless.moved {pi pi' : Pipe} {as : List (PipeAct T)} {a : PipeAct T} (h : Lossless pi as)
    (hm : Moved pi a pi') : Lossless pi' (as ++ [a]) := by
  have hacc : accepted (as ++ [a]) = accepted as ++ accepted [a] := List.filterMap_append
  have hdel : delivered (as ++ [a]) = delivered as ++ delivered [a] := List.filterMap_append
  cases hm with
  | @put t ch hf =>
    have hlt := Pipe.size_lt h.size hf
    refine ⟨?_, ?_⟩
    · have hpush : (pi.put ch).contents = pi.contents ++ [ch] :=
        RingBuffer.contents_push ch (by decide) (by decide) hlt
      rw [hacc, hdel, ← h.bytes, hpush]
      simp [accepted, delivered]
    · have hsize : (pi.put ch).size = pi.size + 1 := RingBuffer.size_push ch (by decide) hlt
      rw [hsize]
      exact hlt
  | @take t he =>
    have hpos := Pipe.size_pos he
    refine ⟨?_, ?_⟩
    · have hpop : pi.contents = pi.front :: pi.take.contents := RingBuffer.contents_pop hpos
      rw [hacc, hdel, ← h.bytes, hpop]
      simp [accepted, delivered]
    · have hsize : pi.take.size + 1 = pi.size := RingBuffer.size_pop hpos
      have hle := h.size
      omega
  | same heq ha hd =>
    refine ⟨?_, ?_⟩
    · rw [hacc, hdel, ← h.bytes, ha, hd, heq, List.append_nil, List.append_nil]
    · rw [heq]
      exact h.size

variable [DecidableEq T]

/-- Nor does a run. -/
theorem Lossless.run {pi : Pipe} (h₀ : Lossless pi ([] : List (PipeAct T))) {as : List (PipeAct T)}
    {s : PipeState T} (h : Transition.Run PipeState.Step (.init pi) as s) : Lossless s.pipe as := by
  induction h with
  | nil => exact h₀
  | snoc _ hs ih => exact ih.moved hs.moved

/-- **A pipe is a lossless FIFO.** In every run of a new pipe the bytes delivered, followed by those in
the buffer, are the bytes accepted; the buffer never holds more than `PIPESIZE` bytes; and a user copy
that fails leaves the pipe as it was. -/
theorem pipe_lossless {data : Fin pipesize → UInt8} {as : List (PipeAct T)} {s : PipeState T}
    (h : Transition.Run PipeState.Step (.init (.alloc data)) as s) :
    delivered as ++ s.pipe.contents = accepted as ∧
      (s.pipe.nwrite - s.pipe.nread).toNat ≤ pipesize ∧
      ∀ t res s', PipeState.Step s (.fault t res) s' → s'.pipe = s.pipe := by
  have hsize : (Pipe.alloc data).size = 0 := RingBuffer.size_eq_zero.mpr rfl
  have h₀ : Lossless (.alloc data) ([] : List (PipeAct T)) := by
    refine ⟨?_, by rw [hsize]; exact Nat.zero_le _⟩
    rw [RingBuffer.contents, hsize]
    rfl
  have hs := h₀.run h
  refine ⟨hs.bytes, hs.size, ?_⟩
  intro t res s' hstep
  cases hstep with
  | writeFault _ _ _ _ => rfl
  | readFault _ _ _ => rfl

/-- A writer puts the byte 7 in, and the first reader faults on it. -/
theorem pipe_lossless_retry : ∃ (as : List (PipeAct Bool)) (s : PipeState Bool),
    Transition.Run PipeState.Step (.init (.alloc fun _ => 5)) as s ∧ accepted as = [7] ∧
      delivered as ++ s.pipe.contents = [7] := by
  have hstart : Transition.Run PipeState.Step (.init (.alloc fun _ => 5)) ([] : List (PipeAct Bool)) _ :=
    .nil
  have hrun := hstart.snoc (.callWrite (t := true) (n := 1) rfl)
    |>.snoc (.lockWrite (t := true) (i := 0) (n := 1) rfl rfl)
    |>.snoc (a := .accept true 7) (.writeByte (i := 0) (n := 1) rfl (by decide) rfl (by decide))
    |>.snoc (.writeDone (t := true) (i := 1) (n := 1) rfl (by decide))
    |>.snoc (.callRead (t := false) (n := 1) rfl)
    |>.snoc (.lockRead (t := false) (n := 1) rfl rfl)
    |>.snoc (.readStart (t := false) (n := 1) rfl (by decide))
    |>.snoc (.readFault (t := false) (i := 0) (n := 1) rfl (by decide) (by decide))
  exact ⟨_, _, hrun, rfl, (pipe_lossless hrun).1⟩

end Xv6
