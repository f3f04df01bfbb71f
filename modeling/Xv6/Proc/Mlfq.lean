import Xv6.Lib.Transition
import Xv6.Vm.Proc

/-!
# The multi-level feedback queue

What the scheduler, the timer interrupt and system calls do to the record of one process
(`kernel/proc.c`, `kernel/trap.c`, `kernel/syscall.c`), and when a process is demoted.

A *slice* of a process is the time since its `ticks_each_level` was last reset. The baseline `temp`
for counting system calls is written at each dispatch, and each tick of the timer takes the CPU away
from the process, so at the end of a slice only the calls made since the last dispatch are counted.
-/

namespace Xv6

open Transition

/-- `time_slice`. The source has no entries besides those of the levels 0 to 3. -/
def timeSlice (lvl : Int32) : Int32 :=
  if lvl = 0 then 2 else if lvl = 1 then 4 else if lvl = 2 then 8 else if lvl = 3 then 16 else 0

namespace Proc

variable (q : Proc)

/-! ## Operations -/

/-- What `scheduler` does before it switches to the process. -/
def dispatch : Proc :=
  { q with state := .running, noOfSchedules := q.noOfSchedules + 1, temp := q.syscount }

/-- The count `syscall` makes. -/
def countSyscall : Proc := { q with syscount := q.syscount + 1 }

/-- `p->ticks_each_level++` and `p->ticks[p->cur_queue_lvl]++`. -/
def countTick : Proc :=
  { q with
    ticksEachLevel := q.ticksEachLevel + 1
    ticks := fun i => if q.curQueueLvl = Int32.ofNat i then q.ticks i + 1 else q.ticks i }

/-- The end of a slice in `usertrap`: demotion, and the start of the next slice. -/
def endSlice : Proc :=
  { q with
    curQueueLvl :=
      if q.syscount - q.temp < q.ticksEachLevel ∧ q.curQueueLvl < 3 then q.curQueueLvl + 1
      else q.curQueueLvl
    ticksEachLevel := 0
    temp := q.syscount }

/-- The timer interrupt in `usertrap`, up to the call of `yield`. -/
def tick : Proc :=
  let q := q.countTick
  if timeSlice q.curQueueLvl ≤ q.ticksEachLevel then q.endSlice else q

/-- What `yield` does before it calls `sched`. -/
def yield : Proc := { q with state := .runnable }

/-- What `sleep` does before it calls `sched`. -/
def sleep (chan : Nat) : Proc := { q with chan := chan, state := .sleeping }

/-- `p->state = RUNNABLE` in `wakeup`, `kkill`, `kfork` and `userinit`. -/
def ready : Proc := { q with state := .runnable }

/-- The end of `kexit`. -/
def exit (status : Int32) : Proc := { q with xstate := status, state := .zombie }

/-- What `priority_boost` does to each process. -/
def boost : Proc :=
  if q.state = .runnable then { q with curQueueLvl := 0, ticksEachLevel := 0, temp := q.syscount }
  else q

/-! ## Levels -/

/-- The level of the process is one of the four queues. -/
def LevelOk : Prop := 0 ≤ q.curQueueLvl ∧ q.curQueueLvl ≤ 3

instance : Decidable q.LevelOk := inferInstanceAs (Decidable (_ ∧ _))

variable {q}

theorem LevelOk.cases (h : q.LevelOk) :
    q.curQueueLvl = 0 ∨ q.curQueueLvl = 1 ∨ q.curQueueLvl = 2 ∨ q.curQueueLvl = 3 := by
  have hlo : 0 ≤ q.curQueueLvl.toInt := by simpa [Int32.le_iff_toInt_le] using h.1
  have hhi : q.curQueueLvl.toInt ≤ 3 := by simpa [Int32.le_iff_toInt_le] using h.2
  have : q.curQueueLvl.toInt = 0 ∨ q.curQueueLvl.toInt = 1 ∨ q.curQueueLvl.toInt = 2 ∨
      q.curQueueLvl.toInt = 3 := by omega
  simpa [← Int32.toInt_inj] using this

theorem LevelOk.of_cases
    (h : q.curQueueLvl = 0 ∨ q.curQueueLvl = 1 ∨ q.curQueueLvl = 2 ∨ q.curQueueLvl = 3) :
    q.LevelOk := by
  unfold LevelOk
  rcases h with h | h | h | h <;> rw [h] <;> decide

/-- The end of a slice leads to a level that exists. -/
theorem LevelOk.endSlice (h : q.LevelOk) : q.endSlice.LevelOk := by
  apply LevelOk.of_cases
  unfold Proc.endSlice
  dsimp only
  split
  · next hd =>
      rcases h.cases with hl | hl | hl | hl
      · simp [hl]
      · simp [hl]
      · simp [hl]
      · exact absurd hd.2 (by rw [hl]; decide)
  · exact h.cases

theorem LevelOk.tick (h : q.LevelOk) : q.tick.LevelOk := by
  unfold Proc.tick
  dsimp only
  split
  · exact LevelOk.endSlice (q := q.countTick) h
  · exact h

theorem LevelOk.boost (h : q.LevelOk) : q.boost.LevelOk := by
  unfold Proc.boost
  split
  · exact LevelOk.of_cases (.inl rfl)
  · exact h

theorem tick_state : q.tick.state = q.state := by
  unfold tick
  dsimp only
  split <;> rfl

theorem boost_state : q.boost.state = q.state := by
  unfold boost
  split <;> rfl

end Proc

/-! ## Slices -/

/-- What happened in the current slice of a process: the system calls it made, those among them since
it was last dispatched, and its ticks. -/
structure Slice where
  calls : Nat
  recent : Nat
  ticks : Nat

/-- A process with the history of its current slice. -/
structure Sliced where
  proc : Proc
  slice : Slice

/-- What happens to a process after `allocproc` returned it. -/
inductive SliceAct where
  | start                    -- `kfork` or `userinit` makes it RUNNABLE
  | dispatch
  | syscall
  | tick                     -- timer interrupt in user mode
  | yield                    -- timer interrupt in the kernel
  | sleep (chan : Nat)
  | wakeup
  | boost
  | exit (status : Int32)

namespace Sliced

/-- A process as `allocproc` returns it, from any earlier content of its slot. -/
def alloc (q : Proc) (pid : Int32) : Sliced := ⟨q.claim pid, ⟨0, 0, 0⟩⟩

/-- The next tick ends the slice: it makes `ticks_each_level` reach `time_slice`. -/
def Expires (s : Sliced) : Prop :=
  timeSlice s.proc.curQueueLvl ≤ s.proc.ticksEachLevel + 1

instance (s : Sliced) : Decidable s.Expires := inferInstanceAs (Decidable (_ ≤ _))

/-- The slice after a tick. -/
def afterTick (s : Sliced) : Slice :=
  if s.Expires then ⟨0, 0, 0⟩ else { s.slice with ticks := s.slice.ticks + 1 }

/-- The slice after `priority_boost`, which resets `ticks_each_level` of RUNNABLE processes. -/
def afterBoost (s : Sliced) : Slice :=
  if s.proc.state = .runnable then ⟨0, 0, 0⟩ else s.slice

inductive Step : Sliced → SliceAct → Sliced → Prop
  | start {s : Sliced} (h : s.proc.state = .used) : Step s .start ⟨s.proc.ready, s.slice⟩
  | dispatch {s : Sliced} (h : s.proc.state = .runnable) :
      Step s .dispatch ⟨s.proc.dispatch, { s.slice with recent := 0 }⟩
  | syscall {s : Sliced} (h : s.proc.state = .running) :
      Step s .syscall ⟨s.proc.countSyscall,
        { s.slice with calls := s.slice.calls + 1, recent := s.slice.recent + 1 }⟩
  | tick {s : Sliced} (h : s.proc.state = .running) :
      Step s .tick ⟨s.proc.tick.yield, s.afterTick⟩
  | yield {s : Sliced} (h : s.proc.state = .running) : Step s .yield ⟨s.proc.yield, s.slice⟩
  | sleep {s : Sliced} {chan : Nat} (h : s.proc.state = .running) :
      Step s (.sleep chan) ⟨s.proc.sleep chan, s.slice⟩
  | wakeup {s : Sliced} (h : s.proc.state = .sleeping) : Step s .wakeup ⟨s.proc.ready, s.slice⟩
  | boost {s : Sliced} : Step s .boost ⟨s.proc.boost, s.afterBoost⟩
  | exit {s : Sliced} {status : Int32} (h : s.proc.state = .running) :
      Step s (.exit status) ⟨s.proc.exit status, s.slice⟩

/-- The fields of the process count what happened in the slice. -/
structure Counted (s : Sliced) : Prop where
  level : s.proc.LevelOk
  ticks : s.proc.ticksEachLevel = Int32.ofNat s.slice.ticks
  short : s.proc.ticksEachLevel < timeSlice s.proc.curQueueLvl
  few : s.slice.ticks < 16
  calls : s.slice.calls < 2 ^ 31
  recent : s.proc.state = .running →
    s.proc.syscount = s.proc.temp + Int32.ofNat s.slice.recent ∧ s.slice.recent ≤ s.slice.calls

/-- A slice has room for one more system call before `syscount - temp` overflows. -/
def Room (s : Sliced) : SliceAct → Prop
  | .syscall => s.slice.calls + 1 < 2 ^ 31
  | _ => True

theorem timeSlice_pos {lvl : Int32} (h : lvl = 0 ∨ lvl = 1 ∨ lvl = 2 ∨ lvl = 3) :
    0 < timeSlice lvl := by
  rcases h with h | h | h | h <;> rw [h] <;> decide

/-- A slice starts from nothing. -/
theorem counted_new {q : Proc} (hl : q.LevelOk) (ht : q.ticksEachLevel = 0)
    (hne : q.state ≠ .running) : Counted ⟨q, ⟨0, 0, 0⟩⟩ where
  level := hl
  ticks := ht
  short := by
    show q.ticksEachLevel < timeSlice q.curQueueLvl
    rw [ht]
    exact timeSlice_pos hl.cases
  few := Nat.zero_lt_succ _
  calls := Nat.two_pow_pos _
  recent h := absurd h hne

variable {s s' : Sliced} {a : SliceAct}

/-- A process that leaves the CPU, or stays off it, without a change of its slice. -/
theorem Counted.off (hs : s.Counted) {q : Proc} (hl : q.curQueueLvl = s.proc.curQueueLvl)
    (ht : q.ticksEachLevel = s.proc.ticksEachLevel) (hne : q.state ≠ .running) :
    Counted ⟨q, s.slice⟩ where
  level := by
    unfold Proc.LevelOk
    rw [hl]
    exact hs.level
  ticks := ht.trans hs.ticks
  short := by
    show q.ticksEachLevel < timeSlice q.curQueueLvl
    rw [hl, ht]
    exact hs.short
  few := hs.few
  calls := hs.calls
  recent h := absurd h hne

/-- `ticks_each_level` after one more tick. -/
theorem Counted.ticks_succ (hs : s.Counted) :
    s.proc.ticksEachLevel + 1 = Int32.ofNat (s.slice.ticks + 1) := by
  rw [hs.ticks, Int32.ofNat_add]
  rfl

/-- A tick is counted, or ends the slice. -/
theorem Counted.tick (hs : s.Counted) : Counted ⟨s.proc.tick.yield, s.afterTick⟩ := by
  by_cases he : s.Expires
  · have ht : s.proc.tick = s.proc.countTick.endSlice := if_pos he
    rw [ht, afterTick, if_pos he]
    have hl : s.proc.countTick.LevelOk := hs.level
    exact counted_new hl.endSlice rfl (by simp [Proc.yield])
  · have ht : s.proc.tick = s.proc.countTick := if_neg he
    have hlt : s.proc.ticksEachLevel + 1 < timeSlice s.proc.curQueueLvl := Int32.not_le.mp he
    rw [ht, afterTick, if_neg he]
    refine ⟨hs.level, hs.ticks_succ, hlt, ?_, hs.calls, fun h => by cases h⟩
    have h16 : timeSlice s.proc.curQueueLvl ≤ 16 := by
      rcases hs.level.cases with h | h | h | h <;> rw [h] <;> decide
    have hfew := hs.few
    rw [hs.ticks_succ, Int32.lt_iff_toInt_lt, Int32.toInt_ofNat_of_lt (by omega)] at hlt
    have h16' : (timeSlice s.proc.curQueueLvl).toInt ≤ 16 := Int32.le_iff_toInt_le.mp h16
    show s.slice.ticks + 1 < 16
    omega

/-- Every step is counted. -/
theorem Counted.step (hs : s.Counted) (hr : s.Room a) (h : Step s a s') : s'.Counted := by
  cases h with
  | start h => exact hs.off rfl rfl (by simp [Proc.ready])
  | dispatch h =>
    refine ⟨hs.level, hs.ticks, hs.short, hs.few, hs.calls, fun _ => ⟨?_, Nat.zero_le _⟩⟩
    exact (Int32.add_zero _).symm
  | syscall h =>
    obtain ⟨he, hle⟩ := hs.recent h
    refine ⟨hs.level, hs.ticks, hs.short, hs.few, hr, fun _ => ⟨?_, Nat.succ_le_succ hle⟩⟩
    show s.proc.syscount + 1 = s.proc.temp + Int32.ofNat (s.slice.recent + 1)
    rw [he, Int32.ofNat_add, Int32.add_assoc]
    rfl
  | tick h => exact hs.tick
  | yield h => exact hs.off rfl rfl (by simp [Proc.yield])
  | sleep h => exact hs.off rfl rfl (by simp [Proc.sleep])
  | wakeup h => exact hs.off rfl rfl (by simp [Proc.ready])
  | boost =>
    by_cases hq : s.proc.state = .runnable
    · rw [Proc.boost, if_pos hq, afterBoost, if_pos hq]
      exact counted_new (.of_cases (.inl rfl)) rfl (by simp [hq])
    · rw [Proc.boost, if_neg hq, afterBoost, if_neg hq]
      exact hs
  | exit h => exact hs.off rfl rfl (by simp [Proc.exit])

/-! ## The demotion rule -/

/-- **The rule**: a tick that ends the slice demotes the process by one level exactly if its level is
below 3 and it made fewer system calls during the slice than the slice had ticks; otherwise its level
stays. -/
def Rule (s : Sliced) : Prop :=
  s.proc.tick.curQueueLvl =
    if s.proc.curQueueLvl < 3 ∧ s.slice.calls < s.slice.ticks + 1 then s.proc.curQueueLvl + 1
    else s.proc.curQueueLvl

instance (s : Sliced) : Decidable s.Rule := inferInstanceAs (Decidable (_ = _))

/-- What the code compares is the number of calls since the last dispatch. -/
theorem Counted.tick_level (hs : s.Counted) (hrun : s.proc.state = .running) (he : s.Expires) :
    s.proc.tick.curQueueLvl =
      if s.proc.curQueueLvl < 3 ∧ s.slice.recent < s.slice.ticks + 1 then s.proc.curQueueLvl + 1
      else s.proc.curQueueLvl := by
  obtain ⟨hc, hle⟩ := hs.recent hrun
  have ht : s.proc.tick = s.proc.countTick.endSlice := if_pos he
  have hsub : s.proc.syscount - s.proc.temp = Int32.ofNat s.slice.recent := by
    rw [hc, Int32.add_comm, Int32.add_sub_cancel]
  have hlt : s.proc.syscount - s.proc.temp < s.proc.ticksEachLevel + 1 ↔
      s.slice.recent < s.slice.ticks + 1 := by
    have hcalls := hs.calls
    have hfew := hs.few
    rw [hsub, hs.ticks_succ, Int32.lt_iff_toInt_lt, Int32.toInt_ofNat_of_lt (by omega),
      Int32.toInt_ofNat_of_lt (by omega)]
    omega
  rw [ht]
  show (if s.proc.syscount - s.proc.temp < s.proc.ticksEachLevel + 1 ∧ s.proc.curQueueLvl < 3
    then s.proc.curQueueLvl + 1 else s.proc.curQueueLvl) = _
  simp only [hlt, and_comm]

theorem succ_ne (lvl : Int32) : lvl + 1 ≠ lvl := by
  intro h
  have h₀ : 1 + lvl = 0 + lvl := by rw [Int32.add_comm, h, Int32.zero_add]
  exact absurd ((Int32.add_left_inj lvl).mp h₀) (by decide)

/-- **When the demotion rule holds**: in every history of a process with fewer than `2 ^ 31` system
calls in each slice, a tick that ends a slice follows the rule exactly if the process is at the last
level, or made fewer calls than ticks in the whole slice, or made at least as many calls as the slice
has ticks since its last dispatch alone. -/
theorem demotion_rule_iff (q : Proc) (pid : Int32) {as : List SliceAct} {s : Sliced}
    (h : Run (Guarded Step Room) (alloc q pid) as s) (hrun : s.proc.state = .running)
    (he : s.Expires) :
    s.Rule ↔ s.proc.curQueueLvl = 3 ∨ s.slice.calls < s.slice.ticks + 1 ∨
      s.slice.ticks + 1 ≤ s.slice.recent := by
  have hs : s.Counted :=
    h.invariant (counted_new (.of_cases (.inl rfl)) rfl (by simp [Proc.claim])) fun _ _ _ hs hstep =>
      hs.step hstep.1 hstep.2
  have hle := (hs.recent hrun).2
  have h3 : s.proc.curQueueLvl = 3 ↔ ¬ s.proc.curQueueLvl < 3 := by
    rcases hs.level.cases with h | h | h | h <;> rw [h] <;> decide
  rw [Rule, hs.tick_level hrun he, h3]
  by_cases hl : s.proc.curQueueLvl < 3
  · by_cases hr : s.slice.recent < s.slice.ticks + 1
    · rw [if_pos ⟨hl, hr⟩]
      by_cases hc : s.slice.calls < s.slice.ticks + 1
      · simp [hl, hc]
      · -- the calls before the last dispatch would have made the difference
        rw [if_neg fun h => hc h.2]
        refine ⟨fun h => absurd h (succ_ne _), fun h => ?_⟩
        rcases h with h | h | h
        · exact absurd hl h
        · exact absurd h hc
        · omega
    · rw [if_neg fun h => hr h.2, if_neg fun h => hr (by omega)]
      simp only [true_iff]
      omega
  · simp [hl]

/-- Three calls before the first tick of a slice of two ticks are forgotten at the second dispatch:
the process is demoted although it made more calls than the slice had ticks. -/
theorem demotion_rule_fails : ∃ as s, Run Step (alloc .fresh 1) as s ∧ s.proc.state = .running ∧
    s.Expires ∧ s.proc.curQueueLvl = 0 ∧ s.slice.calls = 3 ∧ s.slice.ticks + 1 = 2 ∧
    s.proc.tick.curQueueLvl = 1 ∧ ¬ s.Rule := by
  have h₁ : Run Step (alloc .fresh 1) _ _ := (Run.nil.snoc (.start rfl)).snoc (.dispatch rfl)
  have h₂ := ((h₁.snoc (.syscall rfl)).snoc (.syscall rfl)).snoc (.syscall rfl)
  have h₃ := (h₂.snoc (.tick rfl)).snoc (.dispatch rfl)
  exact ⟨_, _, h₃, rfl, by decide, by decide, rfl, rfl, by decide, by decide⟩

/-- The rule at the end of a slice in which the process made one call. -/
theorem demotion_rule_iff_one_call : ∃ s, Sliced.Rule s ∧ s.slice.calls = 1 := by
  have h₁ : Run (Guarded Step Room) (alloc .fresh 1) _ _ :=
    (Run.nil.snoc ⟨by trivial, .start rfl⟩).snoc ⟨by trivial, .dispatch rfl⟩
  have h₂ := (h₁.snoc ⟨by exact (by decide : 0 + 1 < 2 ^ 31), .syscall rfl⟩).snoc ⟨by trivial, .tick rfl⟩
  have h₃ := h₂.snoc ⟨by trivial, .dispatch rfl⟩
  exact ⟨_, (demotion_rule_iff .fresh 1 h₃ rfl (by decide)).mpr (.inr (.inl (by decide))), rfl⟩

end Sliced

end Xv6
