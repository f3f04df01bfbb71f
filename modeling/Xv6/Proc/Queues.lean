import Mathlib.Algebra.BigOperators.Fin
import Xv6.Lib.Counting
import Xv6.Proc.Recycle

/-!
# The queues of the whole process table

The scheduling fields of all slots under the steps of several harts, at the granularity of `p->lock`:
the timer interrupt of a running process, `priority_boost` on another hart, which passes over the table
one slot at a time, creation and release of processes, and what the system calls report of the table.

Beside each slot stands the history of its ticks: the level at each user-mode tick since `allocproc`. A
process that was killed leaves `usertrap` through `kexit` before the tick is counted, so that step is an
exit.
-/

namespace Xv6

open Transition Counting Function List

/-- The process table, with the level at each user-mode tick a slot has taken since `allocproc`, the
latest first. -/
structure Queues where
  procs : ProcId → Proc
  nextpid : Int32
  taken : ProcId → List Int32

inductive QueueAct where
  | alloc (p : ProcId)
  | slot (p : ProcId) (act : SlotAct)
  | tick (p : ProcId)                  -- the locked section of `usertrap`
  | kkill (p : ProcId)
  | boost (p : ProcId)                 -- one pass of the loop of `priority_boost`

namespace Queues

/-- After `procinit`. -/
def boot : Queues := ⟨fun _ => .fresh, 1, fun _ => []⟩

def setProc (s : Queues) (p : ProcId) (q : Proc) : Queues :=
  { s with procs := update s.procs p q }

def setTaken (s : Queues) (p : ProcId) (l : List Int32) : Queues :=
  { s with taken := update s.taken p l }

inductive Step : Queues → QueueAct → Queues → Prop
  -- another hart may have freed a slot that `allocproc` passed over: any unused slot can be taken
  | alloc {s : Queues} {p : ProcId} (hp : (s.procs p).state = .unused) :
      Step s (.alloc p)
        { (s.setProc p ((s.procs p).claim s.nextpid)).setTaken p [] with nextpid := s.nextpid + 1 }
  | slot {s : Queues} {p : ProcId} {act : SlotAct} (hne : act ≠ .tick)
      (hg : act.guard (s.procs p).state) : Step s (.slot p act) (s.setProc p (act.apply (s.procs p)))
  | tick {s : Queues} {p : ProcId} (hp : (s.procs p).state = .running) :
      Step s (.tick p)
        ((s.setProc p (s.procs p).tick).setTaken p ((s.procs p).curQueueLvl :: s.taken p))
  | kkill {s : Queues} {p : ProcId} : Step s (.kkill p) (s.setProc p (s.procs p).kill)
  | boost {s : Queues} {p : ProcId} : Step s (.boost p) (s.setProc p (s.procs p).boost)

/-! ## One slot -/

/-- The scheduling fields of a slot against the history of its ticks. -/
structure SlotOk (q : Proc) (l : List Int32) : Prop where
  level : q.LevelOk
  nonneg : 0 ≤ q.ticksEachLevel
  short : q.ticksEachLevel < timeSlice q.curQueueLvl
  ticks : ∀ i : Fin 4, q.ticks i = Int32.ofNat (l.count (Int32.ofNat i))
  levels : ∀ lvl ∈ l, ∃ i : Fin 4, lvl = Int32.ofNat i

variable {q q' : Proc} {l : List Int32}

theorem SlotOk.congr (h : SlotOk q l) (hl : q'.curQueueLvl = q.curQueueLvl)
    (he : q'.ticksEachLevel = q.ticksEachLevel) (ht : q'.ticks = q.ticks) : SlotOk q' l where
  level := by
    unfold Proc.LevelOk
    rw [hl]
    exact h.level
  nonneg := he ▸ h.nonneg
  short := by
    rw [hl, he]
    exact h.short
  ticks i := by
    rw [ht]
    exact h.ticks i
  levels := h.levels

/-- The start of a slice at any level. -/
theorem SlotOk.restart (hl : q'.LevelOk) (he : q'.ticksEachLevel = 0)
    (ht : ∀ i : Fin 4, q'.ticks i = Int32.ofNat (l.count (Int32.ofNat i)))
    (hlv : ∀ lvl ∈ l, ∃ i : Fin 4, lvl = Int32.ofNat i) : SlotOk q' l where
  level := hl
  nonneg := he ▸ Int32.le_refl 0
  short := by
    rw [he]
    exact Sliced.timeSlice_pos hl.cases
  ticks := ht
  levels := hlv

theorem slotOk_claim (q : Proc) (pid : Int32) : SlotOk (q.claim pid) [] :=
  .restart (.of_cases (.inl rfl)) rfl (fun _ => rfl) fun _ h => absurd h not_mem_nil

/-- A level is the index of an entry of `ticks` and `time_slice`. -/
theorem levelOk_index (h : q.LevelOk) : ∃ i : Fin 4, q.curQueueLvl = Int32.ofNat i := by
  rcases h.cases with h | h | h | h
  · exact ⟨0, h⟩
  · exact ⟨1, h⟩
  · exact ⟨2, h⟩
  · exact ⟨3, h⟩

/-- Nothing but a tick, a boost and `allocproc` writes the scheduling fields. -/
theorem apply_sched {act : SlotAct} (h : act ≠ .tick) :
    (act.apply q).curQueueLvl = q.curQueueLvl ∧ (act.apply q).ticksEachLevel = q.ticksEachLevel ∧
      (act.apply q).ticks = q.ticks := by
  cases act with
  | tick => exact absurd rfl h
  | _ => exact ⟨rfl, rfl, rfl⟩

theorem SlotOk.boost (h : SlotOk q l) : SlotOk q.boost l := by
  unfold Proc.boost
  split
  · exact .restart (.of_cases (.inl rfl)) rfl h.ticks h.levels
  · exact h

/-- One more tick in the count of its level. -/
theorem SlotOk.countTick_ticks (h : SlotOk q l) (i : Fin 4) :
    q.countTick.ticks i = Int32.ofNat ((q.curQueueLvl :: l).count (Int32.ofNat i)) := by
  show (if q.curQueueLvl = Int32.ofNat i then q.ticks i + 1 else q.ticks i) = _
  by_cases hi : q.curQueueLvl = Int32.ofNat i
  · rw [if_pos hi, hi, count_cons_self, h.ticks i, Int32.ofNat_add]
    rfl
  · rw [if_neg hi, count_cons_of_ne hi, h.ticks i]

theorem timeSlice_le {lvl : Int32} (h : lvl = 0 ∨ lvl = 1 ∨ lvl = 2 ∨ lvl = 3) :
    (timeSlice lvl).toInt ≤ 16 := by
  rcases h with h | h | h | h <;> rw [h] <;> decide

/-- A tick is counted at the level of the process. -/
theorem SlotOk.tick (h : SlotOk q l) : SlotOk q.tick (q.curQueueLvl :: l) := by
  have hlevels : ∀ lvl ∈ q.curQueueLvl :: l, ∃ i : Fin 4, lvl = Int32.ofNat i := by
    rintro lvl hlvl
    rcases mem_cons.mp hlvl with rfl | hlvl
    · exact levelOk_index h.level
    · exact h.levels lvl hlvl
  have hl : q.countTick.LevelOk := h.level
  unfold Proc.tick
  dsimp only
  split
  · exact .restart hl.endSlice rfl h.countTick_ticks hlevels
  · next hlt =>
      refine ⟨hl, ?_, Int32.not_le.mp hlt, h.countTick_ticks, hlevels⟩
      -- the slice is short, so the count of its ticks is far from overflowing
      show 0 ≤ q.ticksEachLevel + 1
      have hs := Int32.lt_iff_toInt_lt.mp h.short
      have h0 := Int32.le_iff_toInt_le.mp h.nonneg
      have h16 := timeSlice_le h.level.cases
      rw [Int32.le_iff_toInt_le, toInt_succ (by omega)]
      exact h0.trans (by omega)

/-! ## All slots, along a run -/

/-- Every slot is in order. -/
def Ok (s : Queues) : Prop := ∀ p, SlotOk (s.procs p) (s.taken p)

variable {s s' : Queues} {a : QueueAct} {p : ProcId}

theorem Ok.setProc (hs : Ok s) (hq : SlotOk q (s.taken p)) : Ok (s.setProc p q) := by
  intro p'
  by_cases hp : p' = p
  · subst hp
    simpa only [Queues.setProc, update_self] using hq
  · simpa only [Queues.setProc, update_of_ne hp] using hs p'

theorem Ok.setBoth (hs : Ok s) (hq : SlotOk q l) : Ok ((s.setProc p q).setTaken p l) := by
  intro p'
  by_cases hp : p' = p
  · subst hp
    simpa only [Queues.setProc, Queues.setTaken, update_self] using hq
  · simpa only [Queues.setProc, Queues.setTaken, update_of_ne hp] using hs p'

/-- Every step keeps the slots. -/
theorem Ok.step (hs : Ok s) (h : Step s a s') : Ok s' := by
  cases h with
  | @alloc p hp => exact hs.setBoth (slotOk_claim _ _)
  | @slot p act hne hg =>
    obtain ⟨hl, he, ht⟩ := apply_sched (q := s.procs p) hne
    exact hs.setProc ((hs p).congr hl he ht)
  | @tick p hp => exact hs.setBoth (hs p).tick
  | @kkill p => exact hs.setProc ((hs p).congr rfl rfl rfl)
  | @boost p => exact hs.setProc (hs p).boost

theorem boot_ok : Ok boot := fun _ =>
  .restart (.of_cases (.inl rfl)) rfl (fun _ => rfl) fun _ h => absurd h not_mem_nil

theorem Ok.run {as : List QueueAct} (h : Run Step boot as s) : Ok s :=
  h.invariant boot_ok fun _ _ _ hs hstep => hs.step hstep

/-! ## Ticks taken and ticks counted -/

theorem ofNat_index : ∀ i j : Fin 4, Int32.ofNat j = Int32.ofNat i ↔ i = j := by decide

/-- The four counts together are the number of ticks. -/
theorem sum_count (h : ∀ lvl ∈ l, ∃ i : Fin 4, lvl = Int32.ofNat i) :
    ∑ i : Fin 4, l.count (Int32.ofNat i) = l.length := by
  induction l with
  | nil => rfl
  | cons lvl l ih =>
    have ih := ih fun x hx => h x (mem_cons_of_mem _ hx)
    obtain ⟨j, rfl⟩ := h _ mem_cons_self
    rw [length_cons, ← ih]
    have hone : ∀ i : Fin 4, (Int32.ofNat j :: l).count (Int32.ofNat i) =
        l.count (Int32.ofNat i) + if i = j then 1 else 0 := by
      intro i
      have hinj : Int32.ofNat (j : Nat) = Int32.ofNat (i : Nat) ↔ i = j := ofNat_index i j
      rw [count_cons]
      simp only [beq_iff_eq, hinj]
    simp only [hone, Finset.sum_add_distrib, Finset.sum_ite_eq', Finset.mem_univ, if_true]

/-- The counters add up to the ticks as long as none has wrapped. -/
theorem SlotOk.sum_ticks (h : SlotOk q l) :
    ∑ i, (q.ticks i).toInt = l.length ↔ ∀ i : Fin 4, l.count (Int32.ofNat i) < 2 ^ 31 := by
  have hle : ∀ i ∈ Finset.univ, (q.ticks i).toInt ≤ (l.count (Int32.ofNat (i : Fin 4)) : Int) :=
    fun i _ => by
      rw [h.ticks i]
      exact (toInt_ofNat_le _).1
  rw [← sum_count h.levels, Nat.cast_sum, Finset.sum_eq_sum_iff_of_le hle]
  refine ⟨fun he i => ?_, fun hlt i _ => ?_⟩
  · have := he i (Finset.mem_univ i)
    rw [h.ticks i] at this
    exact (toInt_ofNat_le _).2.mp this
  · rw [h.ticks i]
    exact (toInt_ofNat_le _).2.mpr (hlt i)

/-- What a step does to the level of a slot. -/
theorem Step.level (h : Step s a s') (p : ProcId) :
    (s'.procs p).curQueueLvl = (s.procs p).curQueueLvl ∨ a = .alloc p ∨
    (a = .tick p ∧ timeSlice (s.procs p).curQueueLvl ≤ (s.procs p).ticksEachLevel + 1 ∧
      (s'.procs p).curQueueLvl = (s.procs p).curQueueLvl + 1) ∨
    (a = .boost p ∧ (s'.procs p).curQueueLvl = 0) := by
  -- only the slot the step is about can change
  have other : ∀ {p' : ProcId} {q : Proc}, p ≠ p' →
      ((s.setProc p' q).procs p).curQueueLvl = (s.procs p).curQueueLvl := fun hne => by
    simp only [Queues.setProc, update_of_ne hne]
  have self : ∀ {q : Proc}, ((s.setProc p q).procs p).curQueueLvl = q.curQueueLvl := by
    simp only [Queues.setProc, update_self, implies_true]
  cases h with
  | @alloc p' hp =>
    by_cases hpp : p = p'
    · exact .inr (.inl (hpp ▸ rfl))
    · exact .inl (other hpp)
  | @slot p' act hne hg =>
    left
    by_cases hpp : p = p'
    · subst hpp
      exact self.trans (apply_sched hne).1
    · exact other hpp
  | @tick p' hp =>
    by_cases hpp : p = p'
    · subst hpp
      by_cases he : timeSlice (s.procs p).curQueueLvl ≤ (s.procs p).ticksEachLevel + 1
      · have ht : (s.procs p).tick = (s.procs p).countTick.endSlice := if_pos he
        have hs := self (q := (s.procs p).tick)
        by_cases hd : (s.procs p).syscount - (s.procs p).temp < (s.procs p).ticksEachLevel + 1 ∧
            (s.procs p).curQueueLvl < 3
        · exact .inr (.inr (.inl ⟨rfl, he, hs.trans (by rw [ht]; exact if_pos hd)⟩))
        · exact .inl (hs.trans (by rw [ht]; exact if_neg hd))
      · have ht : (s.procs p).tick = (s.procs p).countTick := if_neg he
        exact .inl (self.trans (by rw [ht]; rfl))
    · exact .inl (other hpp)
  | @kkill p' =>
    left
    by_cases hpp : p = p'
    · subst hpp
      exact self
    · exact other hpp
  | @boost p' =>
    by_cases hpp : p = p'
    · subst hpp
      by_cases hr : (s.procs p).state = .runnable
      · exact .inr (.inr (.inr ⟨rfl, self.trans (by rw [Proc.boost, if_pos hr])⟩))
      · exact .inl (self.trans (by rw [Proc.boost, if_neg hr]))
    · exact .inl (other hpp)

/-- **The queues stay well formed** in every interleaving: each slot has a level of 0 to 3, so `ticks`
and `time_slice` are indexed in range, and a slice shorter than that of its level; the level changes
only at the end of a slice, by one, and to 0 by a boost. The four counts of ticks add up to the ticks
taken as long as none of them has wrapped. -/
theorem queues_well_formed {as : List QueueAct} (h : Run Step boot as s) (p : ProcId) :
    (0 ≤ (s.procs p).curQueueLvl ∧ (s.procs p).curQueueLvl ≤ 3) ∧
    (0 ≤ (s.procs p).ticksEachLevel ∧
      (s.procs p).ticksEachLevel < timeSlice (s.procs p).curQueueLvl) ∧
    (∑ i, ((s.procs p).ticks i).toInt = (s.taken p).length ↔
      ∀ i : Fin 4, (s.taken p).count (Int32.ofNat i) < 2 ^ 31) ∧
    ∀ a s', Step s a s' →
      (s'.procs p).curQueueLvl = (s.procs p).curQueueLvl ∨ a = .alloc p ∨
      (a = .tick p ∧ timeSlice (s.procs p).curQueueLvl ≤ (s.procs p).ticksEachLevel + 1 ∧
        (s'.procs p).curQueueLvl = (s.procs p).curQueueLvl + 1) ∨
      (a = .boost p ∧ (s'.procs p).curQueueLvl = 0) := by
  have hp := Ok.run h p
  exact ⟨hp.level, ⟨hp.nonneg, hp.short⟩, hp.sum_ticks, fun a s' hstep => hstep.level p⟩

/-- A process at level 0 with a new slice waits to run. -/
structure Waiting (q : Proc) : Prop where
  runnable : q.state = .runnable
  level : q.curQueueLvl = 0
  slice : q.ticksEachLevel = 0

theorem waiting_boost (h : q.state = .runnable) : Waiting q.boost := by
  rw [Proc.boost, if_pos h]
  exact ⟨h, rfl, rfl⟩

/-- A dispatch, a tick and a boost, after which the process waits as before. -/
theorem run_boosted_tick (hw : Waiting (s.procs p)) : ∃ as s', Run Step s as s' ∧
    Waiting (s'.procs p) ∧ s'.taken p = 0 :: s.taken p := by
  have h₁ : Step s (.slot p .dispatch) (s.setProc p (s.procs p).dispatch) :=
    .slot (by decide) (by simp [SlotAct.guard, hw.runnable])
  set s₁ := s.setProc p (s.procs p).dispatch with hs₁
  have hp₁ : s₁.procs p = (s.procs p).dispatch := by simp [hs₁, Queues.setProc]
  have h₂ : Step s₁ (.tick p) _ := .tick (by rw [hp₁]; rfl)
  set s₂ := (s₁.setProc p (s₁.procs p).tick).setTaken p ((s₁.procs p).curQueueLvl :: s₁.taken p)
    with hs₂
  have hp₂ : s₂.procs p = (s.procs p).dispatch.tick := by
    simp [hs₂, Queues.setProc, Queues.setTaken, hp₁]
  have ht₂ : s₂.taken p = 0 :: s.taken p := by
    simp [hs₂, hs₁, Queues.setProc, Queues.setTaken, Proc.dispatch, hw.level]
  have h₃ : Step s₂ (.slot p .yield) (s₂.setProc p (s₂.procs p).yield) :=
    .slot (by decide) (by rw [hp₂, Proc.tick_state]; rfl)
  set s₃ := s₂.setProc p (s₂.procs p).yield with hs₃
  have hp₃ : s₃.procs p = (s₂.procs p).yield := by simp [hs₃, Queues.setProc]
  have hrun : (s₃.procs p).state = .runnable := by
    rw [hp₃]
    rfl
  refine ⟨_, _, (((Run.single h₁).snoc h₂).snoc h₃).snoc (.boost (p := p)), ?_, ht₂⟩
  simpa only [Queues.setProc, update_self] using waiting_boost hrun

theorem run_boosted (n : Nat) : ∃ as s, Run Step boot as s ∧ Waiting (s.procs 0) ∧
    s.taken 0 = List.replicate n 0 := by
  induction n with
  | zero =>
    have h : Run Step boot [.alloc 0, .slot 0 .publish] _ :=
      (Run.single (.alloc rfl)).snoc (.slot (by decide) rfl)
    exact ⟨_, _, h, ⟨rfl, rfl, rfl⟩, rfl⟩
  | succ n ih =>
    obtain ⟨as, s, hrun, hw, ht⟩ := ih
    obtain ⟨bs, s', hrun', hw', ht'⟩ := run_boosted_tick hw
    exact ⟨_, s', hrun.append hrun', hw', by rw [ht', ht]; rfl⟩

/-- After 2^31 ticks at level 0 the count of that level is negative. -/
theorem queues_ticks_wrap : ∃ as s, Run Step boot as s ∧
    ∑ i, ((s.procs 0).ticks i).toInt ≠ (s.taken 0).length := by
  obtain ⟨as, s, hrun, -, ht⟩ := run_boosted (2 ^ 31)
  refine ⟨as, s, hrun, fun he => ?_⟩
  have hlt := (Ok.run hrun 0).sum_ticks.mp he 0
  have hcount : (s.taken 0).count 0 = 2 ^ 31 := by
    rw [ht]
    exact count_replicate_self
  exact absurd hlt (by rw [show Int32.ofNat (0 : Fin 4) = 0 from rfl, hcount]; exact Nat.lt_irrefl _)

/-- A process that has taken one tick, at level 0. -/
theorem queues_well_formed_one_tick : ∃ as s, Run Step boot as s ∧ s.taken 0 = [0] ∧
    ∑ i, ((s.procs 0).ticks i).toInt = 1 := by
  obtain ⟨as, s, hrun, -, ht⟩ := run_boosted 1
  refine ⟨as, s, hrun, ht, ?_⟩
  have h := (queues_well_formed hrun 0).2.2.1.mpr
  rw [ht] at h
  exact h (by decide)

end Queues

/-! ## What a system call reports -/

/-- The slot at which `sys_getchildsyscount` stops: the first child of the caller. -/
def firstChild (procs : ProcId → Proc) (p : ProcId) : Option ProcId :=
  firstIdx fun c => (procs c).parent == some p

/-- `sys_getchildsyscount`: it fetches its argument and does not look at it. -/
def sysGetchildsyscount (procs : ProcId → Proc) (p : ProcId) (_arg : Int32) : Int32 :=
  match firstChild procs p with
  | some c => (procs c).syscount
  | none => -1

/-- What the caller asks for: the system calls of its child with the given pid, and -1 if there is no
such child. -/
def ChildSyscount (procs : ProcId → Proc) (p : ProcId) (pid ans : Int32) : Prop :=
  (∃ c, (procs c).parent = some p ∧ (procs c).pid = pid ∧ ans = (procs c).syscount) ∨
  ((∀ c, (procs c).parent = some p → (procs c).pid ≠ pid) ∧ ans = -1)

/-- **The answer is for the first child in the table**: it is the right one exactly for a caller without
children, for one whose first child is the one asked for or has made as many system calls, and by
coincidence of that number with -1. -/
theorem getchildsyscount_right_iff (procs : ProcId → Proc) (p : ProcId) (pid : Int32) :
    ChildSyscount procs p pid (sysGetchildsyscount procs p pid) ↔
      (∀ c, (procs c).parent ≠ some p) ∨
      ∃ f, firstChild procs p = some f ∧
        ((procs f).pid = pid ∨
          (∃ c, (procs c).parent = some p ∧ (procs c).pid = pid ∧
            (procs c).syscount = (procs f).syscount) ∨
          ((∀ c, (procs c).parent = some p → (procs c).pid ≠ pid) ∧ (procs f).syscount = -1)) := by
  cases hf : firstChild procs p with
  | none =>
    have hnone : ∀ c, (procs c).parent ≠ some p := by
      simpa [firstChild] using firstIdx_eq_none.mp hf
    have hans : sysGetchildsyscount procs p pid = -1 := by simp [sysGetchildsyscount, hf]
    refine ⟨fun _ => .inl hnone, fun _ => .inr ⟨fun c hc => absurd hc (hnone c), hans⟩⟩
  | some f =>
    have hchild : (procs f).parent = some p := by simpa using firstIdx_holds hf
    have hans : sysGetchildsyscount procs p pid = (procs f).syscount := by
      simp [sysGetchildsyscount, hf]
    rw [hans]
    constructor
    · rintro (⟨c, hc, hpid, he⟩ | ⟨hno, he⟩)
      · exact .inr ⟨f, rfl, .inr (.inl ⟨c, hc, hpid, he.symm⟩)⟩
      · exact .inr ⟨f, rfl, .inr (.inr ⟨hno, he⟩)⟩
    · rintro (hno | ⟨g, hg, h⟩)
      · exact absurd hchild (hno f)
      · obtain rfl := Option.some_inj.mp hg
        rcases h with hpid | ⟨c, hc, hpid, he⟩ | ⟨hno, he⟩
        · exact .inl ⟨f, hchild, hpid, rfl⟩
        · exact .inl ⟨c, hc, hpid, he.symm⟩
        · exact .inr ⟨hno, he⟩

/-- The process in slot 0 with a child with pid 2 that made no system call and one with pid 3 that made
seven. -/
def twoChildren : ProcId → Proc := fun p =>
  if p = 1 then { Proc.fresh with pid := 2, parent := some 0, state := .runnable }
  else if p = 2 then { Proc.fresh with pid := 3, parent := some 0, state := .zombie, syscount := 7 }
  else { Proc.fresh with pid := 1, state := .running }

/-- Asked for the child with pid 3, the call answers for the one with pid 2. -/
theorem getchildsyscount_other_child :
    sysGetchildsyscount twoChildren 0 3 = 0 ∧ ¬ ChildSyscount twoChildren 0 3 0 := by
  have hfirst : firstChild twoChildren 0 = some 1 := firstIdx_eq_some_of rfl (by decide)
  refine ⟨by simp [sysGetchildsyscount, hfirst, twoChildren, Proc.fresh], ?_⟩
  rintro (⟨c, hc, hpid, he⟩ | ⟨hno, he⟩)
  · revert c
    decide
  · exact hno 2 rfl rfl

end Xv6
