import Xv6.Proc.Mlfq

/-!
# The scan of `scheduler`

One hart runs the loop of `scheduler` (`kernel/proc.c`): it visits the slots of the process table once
for each level, in one sweep over `4 * NPROC` places, and switches to each process that is RUNNABLE at
the level of the sweep. The sweep goes on from the same place when the process gives the CPU back.
Meanwhile the process makes system calls, wakes, creates and reaps other processes, and the timer
boosts all RUNNABLE processes. Between two processes the scheduler can be interrupted as well, so
wakeups and boosts happen at every place of the sweep.

The model keeps the fields of a process that its scheduling depends on; those that only memory and
files use do not change here.
-/

namespace Xv6

open Transition Function

/-- The places of one sweep: each slot at each of the four levels. -/
abbrev places : Nat := 4 * nproc

/-- The slot visited at a place of the sweep. -/
def slotAt (n : Nat) : ProcId := ⟨n % nproc, Nat.mod_lt _ (by decide)⟩

/-- The level visited at a place of the sweep. -/
def levelAt (n : Nat) : Int32 := Int32.ofNat (n / nproc)

/-- The place at which the sweep comes to the process `q` in slot `p`. -/
def placeOf (p : ProcId) (q : Proc) : Nat := q.curQueueLvl.toNatClampNeg * nproc + p

/-- Where the scheduler is. -/
inductive SchedMode where
  | window               -- between two sweeps, where interrupts are on
  | scan (n : Nat)       -- about to visit place `n`
  | running (n : Nat)    -- switched to the process found at place `n`
  deriving DecidableEq

/-- The places the current sweep has passed; all of them between two sweeps. -/
def SchedMode.passed : SchedMode → Nat
  | .window => places
  | .scan n => n
  | .running n => n + 1

structure Sched where
  procs : ProcId → Proc
  mode : SchedMode

inductive SchedAct where
  | start
  | skip
  | dispatch (p : ProcId)
  | finish
  | syscall (p : ProcId)
  | tick (p : ProcId)
  | yield (p : ProcId)
  | sleep (p : ProcId) (chan : Nat)
  | exit (p : ProcId) (status : Int32)
  | alloc (p : ProcId) (pid : Int32)
  | publish (p : ProcId)
  | free (p : ProcId)
  | wakeup (p : ProcId)
  | boost
  deriving DecidableEq

namespace Sched

variable (s : Sched)

/-- The process in the slot of place `n` is RUNNABLE at the level of that place. -/
def Eligible (n : Nat) : Prop :=
  (s.procs (slotAt n)).state = .runnable ∧ (s.procs (slotAt n)).curQueueLvl = levelAt n

instance (n : Nat) : Decidable (s.Eligible n) := inferInstanceAs (Decidable (_ ∧ _))

/-- A new record in the slot `p`. -/
def put (p : ProcId) (q : Proc) : ProcId → Proc := update s.procs p q

inductive Step : Sched → SchedAct → Sched → Prop
  | start {s : Sched} (hm : s.mode = .window) : Step s .start { s with mode := .scan 0 }
  | skip {s : Sched} {n : Nat} (hm : s.mode = .scan n) (hn : n < places) (he : ¬ s.Eligible n) :
      Step s .skip { s with mode := .scan (n + 1) }
  | dispatch {s : Sched} {n : Nat} (hm : s.mode = .scan n) (hn : n < places) (he : s.Eligible n) :
      Step s (.dispatch (slotAt n)) ⟨s.put (slotAt n) (s.procs (slotAt n)).dispatch, .running n⟩
  | finish {s : Sched} (hm : s.mode = .scan places) : Step s .finish { s with mode := .window }
  -- the running process
  | syscall {s : Sched} {n : Nat} (hm : s.mode = .running n) :
      Step s (.syscall (slotAt n))
        { s with procs := s.put (slotAt n) (s.procs (slotAt n)).countSyscall }
  | tick {s : Sched} {n : Nat} (hm : s.mode = .running n) :
      Step s (.tick (slotAt n))
        ⟨s.put (slotAt n) (s.procs (slotAt n)).tick.yield, .scan (n + 1)⟩
  | yield {s : Sched} {n : Nat} (hm : s.mode = .running n) :
      Step s (.yield (slotAt n)) ⟨s.put (slotAt n) (s.procs (slotAt n)).yield, .scan (n + 1)⟩
  | sleep {s : Sched} {n chan : Nat} (hm : s.mode = .running n) :
      Step s (.sleep (slotAt n) chan)
        ⟨s.put (slotAt n) ((s.procs (slotAt n)).sleep chan), .scan (n + 1)⟩
  | exit {s : Sched} {n : Nat} {status : Int32} (hm : s.mode = .running n) :
      Step s (.exit (slotAt n) status)
        ⟨s.put (slotAt n) ((s.procs (slotAt n)).exit status), .scan (n + 1)⟩
  -- what it does to others: `allocproc`, the end of `kfork`, `freeproc`
  | alloc {s : Sched} {n : Nat} {p : ProcId} {pid : Int32} (hm : s.mode = .running n)
      (hp : (s.procs p).state = .unused) :
      Step s (.alloc p pid) { s with procs := s.put p ((s.procs p).claim pid) }
  | publish {s : Sched} {n : Nat} {p : ProcId} (hm : s.mode = .running n)
      (hp : (s.procs p).state = .used) :
      Step s (.publish p) { s with procs := s.put p (s.procs p).ready }
  | free {s : Sched} {n : Nat} {p : ProcId} (hm : s.mode = .running n)
      (hp : (s.procs p).state = .used ∨ (s.procs p).state = .zombie) :
      Step s (.free p) { s with procs := s.put p (s.procs p).release }
  -- at any time
  | wakeup {s : Sched} {p : ProcId} (hp : (s.procs p).state = .sleeping) :
      Step s (.wakeup p) { s with procs := s.put p (s.procs p).ready }
  | boost {s : Sched} : Step s .boost { s with procs := fun p => (s.procs p).boost }

/-! ## Places -/

theorem placeOf_lt {p : ProcId} {q : Proc} (h : q.LevelOk) : placeOf p q < places := by
  have hp := p.isLt
  have hl : q.curQueueLvl.toNatClampNeg ≤ 3 := by
    rcases h.cases with h | h | h | h <;> rw [h] <;> decide
  unfold placeOf places nproc at *
  omega

theorem placeOf_level_zero {p : ProcId} {q : Proc} (h : q.curQueueLvl = 0) :
    placeOf p q = p := by
  simp [placeOf, h]

/-- The sweep comes to a process at the place where it finds it. -/
theorem placeOf_eq_iff {p : ProcId} {q : Proc} {n : Nat} (h : q.LevelOk) (hn : n < places) :
    placeOf p q = n ↔ p = slotAt n ∧ q.curQueueLvl = levelAt n := by
  have hp := p.isLt
  have hd : n / nproc < 4 := Nat.div_lt_of_lt_mul (by unfold places at hn; omega)
  have hlevel : q.curQueueLvl = levelAt n ↔ q.curQueueLvl.toNatClampNeg = n / nproc := by
    unfold levelAt
    generalize n / nproc = l at hd ⊢
    rcases h.cases with h | h | h | h <;> rw [h] <;> interval_cases l <;> decide
  rw [hlevel, Fin.ext_iff]
  simp only [placeOf, slotAt]
  unfold nproc at *
  omega

/-- A lower level comes first in the sweep. -/
theorem level_le_of_place {p : ProcId} {q : Proc} {n : Nat} (h : q.LevelOk)
    (hn : n < places) (hle : n ≤ placeOf p q) : levelAt n ≤ q.curQueueLvl := by
  have hp := p.isLt
  have hd : n / nproc ≤ q.curQueueLvl.toNatClampNeg := by
    unfold placeOf at hle
    unfold nproc at *
    omega
  have hd4 : n / nproc < 4 := Nat.div_lt_of_lt_mul (by unfold places at hn; omega)
  unfold levelAt
  generalize n / nproc = l at hd hd4 ⊢
  rcases h.cases with h | h | h | h <;> rw [h] at hd ⊢ <;> interval_cases l <;>
    first
    | decide
    | exact absurd hd (by decide)

/-! ## What every step keeps -/

/-- The levels are those of the four queues, and the process the scheduler switched to is RUNNING. -/
structure Ok : Prop where
  level : ∀ p, (s.procs p).LevelOk
  running : ∀ n, s.mode = .running n → n < places ∧ (s.procs (slotAt n)).state = .running

variable {s} {s' : Sched} {a : SchedAct} {p : ProcId}

theorem Ok.put (hs : s.Ok) {q : Proc} (hq : q.LevelOk)
    (hp : (s.procs p).state ≠ .running) : Ok { s with procs := s.put p q } where
  level p' := by
    by_cases h : p' = p
    · subst h
      simpa [Sched.put] using hq
    · simpa [Sched.put, update_of_ne h] using hs.level p'
  running n hm := by
    obtain ⟨hn, hr⟩ := hs.running n hm
    have hne : slotAt n ≠ p := fun h => hp (h ▸ hr)
    exact ⟨hn, by simpa [Sched.put, update_of_ne hne] using hr⟩

/-- Giving up the CPU. -/
theorem Ok.leave (hs : s.Ok) {q : Proc} {n : Nat} (hq : q.LevelOk) :
    Ok ⟨s.put p q, .scan n⟩ where
  level p' := by
    by_cases h : p' = p
    · subst h
      simpa [Sched.put] using hq
    · simpa [Sched.put, update_of_ne h] using hs.level p'
  running n hm := by cases hm

/-- Every step keeps the table. -/
theorem Ok.step (hs : s.Ok) (h : Step s a s') : s'.Ok := by
  cases h with
  | start hm => exact ⟨hs.level, fun n h => by cases h⟩
  | skip hm hn he => exact ⟨hs.level, fun n h => by cases h⟩
  | @dispatch n hm hn he =>
    have hl : (s.procs (slotAt n)).dispatch.LevelOk := hs.level (slotAt n)
    have hleave : Ok ⟨s.put (slotAt n) (s.procs (slotAt n)).dispatch, .scan n⟩ := hs.leave hl
    refine ⟨hleave.level, fun m h => ?_⟩
    cases h
    exact ⟨hn, by simp [Sched.put, Proc.dispatch]⟩
  | finish hm => exact ⟨hs.level, fun n h => by cases h⟩
  | @syscall n hm =>
    have hl : (s.procs (slotAt n)).countSyscall.LevelOk := hs.level (slotAt n)
    have hleave : Ok ⟨s.put (slotAt n) (s.procs (slotAt n)).countSyscall, .scan n⟩ := hs.leave hl
    refine ⟨hleave.level, fun m h => ?_⟩
    obtain ⟨hlt, hr⟩ := hs.running m h
    have hnm : n = m := by
      rw [hm] at h
      cases h
      rfl
    subst hnm
    exact ⟨hlt, by simpa [Sched.put, Proc.countSyscall] using hr⟩
  | @tick n hm =>
    have hl : (s.procs (slotAt n)).tick.LevelOk := (hs.level (slotAt n)).tick
    exact hs.leave hl
  | @yield n hm => exact hs.leave (hs.level (slotAt n))
  | @sleep n chan hm => exact hs.leave (hs.level (slotAt n))
  | @exit n status hm => exact hs.leave (hs.level (slotAt n))
  | alloc hm hp => exact hs.put (.of_cases (.inl rfl)) (by simp [hp])
  | @publish n p hm hp => exact hs.put (hs.level p) (by simp [hp])
  | @free n p hm hp => exact hs.put (hs.level p) (by rcases hp with hp | hp <;> simp [hp])
  | @wakeup p hp => exact hs.put (hs.level p) (by simp [hp])
  | boost =>
    refine ⟨fun p => (hs.level p).boost, fun n hm => ?_⟩
    obtain ⟨hn, hr⟩ := hs.running n hm
    exact ⟨hn, Proc.boost_state.trans hr⟩

theorem Ok.run {s₀ : Sched} {as : List SchedAct} (h₀ : s₀.Ok) (h : Run Step s₀ as s) : s.Ok :=
  h.invariant h₀ fun _ _ _ hs hstep => hs.step hstep

/-- How a step moves the sweep: it starts a sweep, or visits one place, or stays where it is. -/
theorem Step.passed (h : Step s a s') :
    a = .start ∧ s.mode = .window ∧ s'.mode = .scan 0 ∧ s'.procs = s.procs ∨
    (∃ n < places, s.mode = .scan n ∧ s'.mode.passed = n + 1 ∧ s'.mode ≠ .window ∧
      (a = .skip ∧ ¬ s.Eligible n ∧ s'.procs = s.procs ∨ a = .dispatch (slotAt n) ∧ s.Eligible n)) ∨
    s'.mode.passed = s.mode.passed ∧ a ≠ .start ∧ ∀ p, a ≠ .dispatch p := by
  cases h with
  | start hm => exact .inl ⟨rfl, hm, rfl, rfl⟩
  | skip hm hn he => exact .inr (.inl ⟨_, hn, hm, rfl, by simp, .inl ⟨rfl, he, rfl⟩⟩)
  | dispatch hm hn he => exact .inr (.inl ⟨_, hn, hm, rfl, by simp, .inr ⟨rfl, he⟩⟩)
  | finish hm => exact .inr (.inr ⟨by simp [SchedMode.passed, hm], by simp, by simp⟩)
  | syscall hm => exact .inr (.inr ⟨rfl, by simp, by simp⟩)
  | tick hm => exact .inr (.inr ⟨by simp [SchedMode.passed, hm], by simp, by simp⟩)
  | yield hm => exact .inr (.inr ⟨by simp [SchedMode.passed, hm], by simp, by simp⟩)
  | sleep hm => exact .inr (.inr ⟨by simp [SchedMode.passed, hm], by simp, by simp⟩)
  | exit hm => exact .inr (.inr ⟨by simp [SchedMode.passed, hm], by simp, by simp⟩)
  | alloc hm hp => exact .inr (.inr ⟨rfl, by simp, by simp⟩)
  | publish hm hp => exact .inr (.inr ⟨rfl, by simp, by simp⟩)
  | free hm hp => exact .inr (.inr ⟨rfl, by simp, by simp⟩)
  | wakeup hp => exact .inr (.inr ⟨rfl, by simp, by simp⟩)
  | boost => exact .inr (.inr ⟨rfl, by simp, by simp⟩)

/-- Nothing but its own dispatch and a boost touches a RUNNABLE process. -/
theorem Step.runnable_frame (h : Step s a s') (hs : s.Ok) (hp : (s.procs p).state = .runnable)
    (hd : a ≠ .dispatch p) (hb : a ≠ .boost) : s'.procs p = s.procs p := by
  have other : ∀ p' q, (s.procs p').state ≠ .runnable → s.put p' q p = s.procs p := by
    intro p' q hne
    exact update_of_ne (fun h : p = p' => hne (h ▸ hp)) _ _
  have current : ∀ n q, s.mode = .running n → s.put (slotAt n) q p = s.procs p := by
    intro n q hm
    exact other _ _ (by simp [(hs.running n hm).2])
  cases h with
  | start hm => rfl
  | skip hm hn he => rfl
  | dispatch hm hn he => exact update_of_ne (fun h => hd (by rw [h])) _ _
  | finish hm => rfl
  | syscall hm => exact current _ _ hm
  | tick hm => exact current _ _ hm
  | yield hm => exact current _ _ hm
  | sleep hm => exact current _ _ hm
  | exit hm => exact current _ _ hm
  | alloc hm hp => exact other _ _ (by simp [hp])
  | publish hm hp => exact other _ _ (by simp [hp])
  | free hm hp => exact other _ _ (by rcases hp with hp | hp <;> simp [hp])
  | wakeup hp => exact other _ _ (by simp [hp])
  | boost => exact absurd rfl hb

/-- The sweep goes on over `k` places at which no process is RUNNABLE. -/
theorem run_skips {step : Sched → SchedAct → Sched → Prop}
    (hstep : ∀ {s n}, s.mode = .scan n → n < places → ¬ s.Eligible n →
      step s .skip { s with mode := .scan (n + 1) })
    {s₀ : Sched} {as : List SchedAct} {procs : ProcId → Proc} {n : Nat}
    (h : Run step s₀ as ⟨procs, .scan n⟩) (hlevel : ∀ p, (procs p).LevelOk) (k : Nat)
    (hk : ∀ p, (procs p).state = .runnable → placeOf p (procs p) < n ∨ n + k ≤ placeOf p (procs p))
    (hle : n + k ≤ places) : Run step s₀ (as ++ List.replicate k .skip) ⟨procs, .scan (n + k)⟩ := by
  induction k with
  | zero => simpa using h
  | succ k ih =>
    have hidle : ¬ Eligible ⟨procs, .scan (n + k)⟩ (n + k) := by
      intro he
      have hplace := (placeOf_eq_iff (hlevel _) (by omega)).mpr ⟨rfl, he.2⟩
      rcases hk _ he.1 with hlt | hlt <;> omega
    have hrun := (ih (fun p hp => (hk p hp).imp_right (by omega)) (by omega)).snoc
      (hstep (s := ⟨procs, .scan (n + k)⟩) rfl (by omega) hidle)
    rw [List.append_assoc, ← List.replicate_succ'] at hrun
    exact hrun

/-! ## Strict priority -/

/-- The current sweep has still to come to the process `q` in slot `p`. -/
def Reaches (s : Sched) (p : ProcId) (q : Proc) : Prop :=
  s.mode = .window ∨ s.mode.passed ≤ placeOf p q

instance (s : Sched) (p : ProcId) (q : Proc) : Decidable (s.Reaches p q) :=
  inferInstanceAs (Decidable (_ ∨ _))

/-- The sweep has passed `q` in slot `p`, and has still to come to `q'`, which has a greater level, in
slot `p'`. -/
def Overtakes (s : Sched) (p : ProcId) (q : Proc) (p' : ProcId) (q' : Proc) : Prop :=
  ¬ s.Reaches p q ∧ s.Reaches p' q' ∧ q.curQueueLvl < q'.curQueueLvl

instance (s : Sched) (p p' : ProcId) (q q' : Proc) : Decidable (s.Overtakes p q p' q') :=
  inferInstanceAs (Decidable (_ ∧ _ ∧ _))

/-- The process `q` can become RUNNABLE in slot `p`: no other RUNNABLE process overtakes it or is
overtaken by it. -/
def Admits (s : Sched) (p : ProcId) (q : Proc) : Prop :=
  ∀ p', p' ≠ p → (s.procs p').state = .runnable →
    ¬ s.Overtakes p q p' (s.procs p') ∧ ¬ s.Overtakes p' (s.procs p') p q

instance (s : Sched) (p : ProcId) (q : Proc) : Decidable (s.Admits p q) :=
  inferInstanceAs (Decidable (∀ _, _))

/-- The condition on the actions that make a process RUNNABLE. A boost needs none: it brings all
RUNNABLE processes to one level. -/
def Orderly (s : Sched) : SchedAct → Prop
  | .tick p => s.Admits p (s.procs p).tick
  | .yield p => s.Admits p (s.procs p)
  | .publish p => s.Admits p (s.procs p)
  | .wakeup p => s.Admits p (s.procs p)
  | _ => True

/-- No RUNNABLE process overtakes another. -/
def InOrder (s : Sched) : Prop :=
  ∀ p p', (s.procs p).state = .runnable → (s.procs p').state = .runnable →
    ¬ s.Overtakes p (s.procs p) p' (s.procs p')

/-- A step that leaves the sweep where it is does not change what is ahead of it. -/
theorem Reaches.congr {t : Sched} (hm : t.mode.passed = s.mode.passed)
    (hw : t.mode = .window ↔ s.mode = .window) {q : Proc} : t.Reaches p q ↔ s.Reaches p q := by
  unfold Reaches
  rw [hm, hw]

/-- A step that passes a place leaves all but the process at that place on their side of the sweep. -/
theorem Reaches.next {q : Proc} {n : Nat} {t : Sched} (hm : s.mode = .scan n)
    (hn : t.mode.passed = n + 1) (hw : t.mode ≠ .window) (hne : placeOf p q ≠ n) :
    t.Reaches p q ↔ s.Reaches p q := by
  have hpassed : s.mode.passed = n := by rw [hm]; rfl
  have hscan : s.mode ≠ .window := by simp [hm]
  simp only [Reaches, hw, hscan, hpassed, hn, false_or]
  omega

/-- One process changes and the sweep stays where it is. -/
theorem InOrder.put (hs : s.InOrder) {q : Proc} {mode : SchedMode}
    (hm : mode.passed = s.mode.passed) (hw : mode = .window ↔ s.mode = .window)
    (hq : q.state = .runnable → s.Admits p q) : InOrder ⟨s.put p q, mode⟩ := by
  intro p₁ p₂ h₁ h₂ ⟨hback, hahead, hlt⟩
  rw [Reaches.congr hm hw] at hback hahead
  by_cases he₁ : p₁ = p
  · subst he₁
    by_cases he₂ : p₂ = p₁
    · subst he₂
      exact Int32.lt_irrefl hlt
    · simp only [Sched.put, update_self, update_of_ne he₂] at h₁ h₂ hback hahead hlt
      exact (hq h₁ p₂ he₂ h₂).1 ⟨hback, hahead, hlt⟩
  · by_cases he₂ : p₂ = p
    · subst he₂
      simp only [Sched.put, update_self, update_of_ne he₁] at h₁ h₂ hback hahead hlt
      exact (hq h₂ p₁ he₁ h₁).2 ⟨hback, hahead, hlt⟩
    · simp only [Sched.put, update_of_ne he₁, update_of_ne he₂] at h₁ h₂ hback hahead hlt
      exact hs p₁ p₂ h₁ h₂ ⟨hback, hahead, hlt⟩

/-- The sweep passes a place at which no process stays RUNNABLE. -/
theorem InOrder.next (hs : s.InOrder) {n : Nat} {t : Sched} (hm : s.mode = .scan n)
    (hn : t.mode.passed = n + 1) (hw : t.mode ≠ .window)
    (hp : ∀ p, (t.procs p).state = .runnable → t.procs p = s.procs p ∧ placeOf p (s.procs p) ≠ n) :
    t.InOrder := by
  intro p₁ p₂ h₁ h₂ ⟨hback, hahead, hlt⟩
  obtain ⟨he₁, hne₁⟩ := hp p₁ h₁
  obtain ⟨he₂, hne₂⟩ := hp p₂ h₂
  rw [he₁] at h₁ hback hlt
  rw [he₂] at h₂ hahead hlt
  exact hs p₁ p₂ h₁ h₂
    ⟨(Reaches.next hm hn hw hne₁).not.mp hback, (Reaches.next hm hn hw hne₂).mp hahead, hlt⟩

/-- An orderly step lets no process overtake another. -/
theorem InOrder.step (hs : s.InOrder) (hok : s.Ok) (ha : s.Orderly a) (h : Step s a s') :
    s'.InOrder := by
  cases h with
  | start hm => exact fun _ _ _ _ ho => ho.1 (.inr (Nat.zero_le _))
  | @skip n hm hn he =>
    refine hs.next hm rfl (by simp) fun p hp => ⟨rfl, fun hplace => he ?_⟩
    obtain ⟨rfl, hl⟩ := (placeOf_eq_iff (hok.level p) hn).mp hplace
    exact ⟨hp, hl⟩
  | @dispatch n hm hn he =>
    refine hs.next hm rfl (by simp) fun p hp => ?_
    have hne : p ≠ slotAt n := by
      rintro rfl
      simp [Sched.put, Proc.dispatch] at hp
    exact ⟨update_of_ne hne .., fun hplace =>
      hne ((placeOf_eq_iff (hok.level p) hn).mp hplace).1⟩
  | finish hm => exact fun _ _ _ _ ho => ho.1 (.inl rfl)
  | @syscall n hm =>
    refine hs.put rfl Iff.rfl fun h => ?_
    exact absurd ((hok.running n hm).2.symm.trans h) (by simp)
  | tick hm => exact hs.put (by simp [SchedMode.passed, hm]) (by simp [hm]) fun _ => ha
  | yield hm => exact hs.put (by simp [SchedMode.passed, hm]) (by simp [hm]) fun _ => ha
  | sleep hm => exact hs.put (by simp [SchedMode.passed, hm]) (by simp [hm]) fun h => by cases h
  | exit hm => exact hs.put (by simp [SchedMode.passed, hm]) (by simp [hm]) fun h => by cases h
  | alloc hm hp => exact hs.put rfl Iff.rfl fun h => by cases h
  | publish hm hp => exact hs.put rfl Iff.rfl fun _ => ha
  | free hm hp => exact hs.put rfl Iff.rfl fun h => by cases h
  | wakeup hp => exact hs.put rfl Iff.rfl fun _ => ha
  | boost =>
    intro p₁ p₂ h₁ h₂ ⟨_, _, hlt⟩
    have hzero : ∀ p, ((s.procs p).boost).state = .runnable → ((s.procs p).boost).curQueueLvl = 0 :=
      fun p hp => by simp [Proc.boost, Proc.boost_state.symm.trans hp]
    rw [hzero p₁ h₁, hzero p₂ h₂] at hlt
    exact Int32.lt_irrefl hlt

/-- **Strict priority**, in every run in which no process becomes RUNNABLE behind the sweep while one of
a greater level is RUNNABLE ahead of it, nor ahead while one of a smaller level is RUNNABLE behind: the
scheduler dispatches a process only if no RUNNABLE process has a smaller level. -/
theorem strict_priority_orderly {s₀ : Sched} {as : List SchedAct} (h₀ : ∀ p, (s₀.procs p).LevelOk)
    (hm : s₀.mode = .window) (h : Run (Guarded Step Orderly) s₀ as s)
    (hd : Step s (.dispatch p) s') :
    ∀ p', (s.procs p').state = .runnable → (s.procs p).curQueueLvl ≤ (s.procs p').curQueueLvl := by
  have hinv : s.Ok ∧ s.InOrder :=
    h.invariant (I := fun s => s.Ok ∧ s.InOrder) ⟨⟨h₀, by simp [hm]⟩, fun _ _ _ _ ho => ho.1 (.inl hm)⟩
      fun _ _ _ hs hstep => ⟨hs.1.step hstep.2, hs.2.step hs.1 hstep.1 hstep.2⟩
  obtain ⟨hok, hord⟩ := hinv
  intro p' hp'
  cases hd with
  | @dispatch n hm hn he =>
    have hplace : placeOf (slotAt n) (s.procs (slotAt n)) = n :=
      (placeOf_eq_iff (hok.level _) hn).mpr ⟨rfl, he.2⟩
    have hreach : s.Reaches (slotAt n) (s.procs (slotAt n)) := by
      right
      rw [hm, hplace]
      exact le_rfl
    by_cases hback : s.Reaches p' (s.procs p')
    · have hle : n ≤ placeOf p' (s.procs p') := by
        rcases hback with hw | hle
        · rw [hm] at hw
          cases hw
        · rwa [hm] at hle
      rw [he.2]
      exact level_le_of_place (hok.level p') hn hle
    · by_contra hlt
      exact hord p' _ hp' he.1 ⟨hback, hreach, Int32.not_le.mp hlt⟩

/-- **The condition is exact**: a process that overtakes a RUNNABLE one can be dispatched while the other
one waits. -/
theorem Overtakes.dispatched {p' : ProcId} {n : Nat} (hok : s.Ok) (hm : s.mode = .scan n)
    (hp : (s.procs p).state = .runnable) (hp' : (s.procs p').state = .runnable)
    (ho : s.Overtakes p (s.procs p) p' (s.procs p')) :
    ∃ as t t' q, Run Step s as t ∧ Step t (.dispatch q) t' ∧ t.procs p = s.procs p ∧
      (s.procs p).curQueueLvl < (t.procs q).curQueueLvl := by
  obtain ⟨hback, hahead, hlt⟩ := ho
  have hreach : ∀ {q r}, s.Reaches q r ↔ n ≤ placeOf q r := by simp [Reaches, hm, SchedMode.passed]
  rw [hreach] at hback hahead
  have hend := placeOf_lt (p := p') (hok.level p')
  induction hd : placeOf p' (s.procs p') - n generalizing s n with
  | zero =>
    have hplace : placeOf p' (s.procs p') = n := by omega
    obtain ⟨rfl, hl⟩ := (placeOf_eq_iff (hok.level p') (by omega)).mp hplace
    exact ⟨_, _, _, _, .nil, .dispatch hm (by omega) ⟨hp', hl⟩, rfl, hlt⟩
  | succ d ih =>
    -- the process at this place, if there is one, runs and exits
    obtain ⟨as, t, hrun, htm, hkeep⟩ : ∃ as t, Run Step s as t ∧ t.mode = .scan (n + 1) ∧
        ∀ r, placeOf r (s.procs r) ≠ n → t.procs r = s.procs r := by
      by_cases he : s.Eligible n
      · refine ⟨_, _, (Run.single (.dispatch hm (by omega) he)).snoc (@Step.exit _ n 0 rfl), rfl,
          fun r hr => ?_⟩
        have hne : r ≠ slotAt n := by
          rintro rfl
          exact hr ((placeOf_eq_iff (hok.level _) (by omega)).mpr ⟨rfl, he.2⟩)
        simp [Sched.put, update_of_ne hne]
      · exact ⟨_, _, .single (.skip hm (by omega) he), rfl, fun _ _ => rfl⟩
    have hsame := hkeep p (by omega)
    have hsame' := hkeep p' (by omega)
    have hnext := ih (s := t) (n := n + 1) (hok.run hrun) htm
    rw [hsame, hsame'] at hnext
    obtain ⟨bs, u, u', q, hrun', hstep, hq, hl⟩ := hnext hp hp' (by omega) (by omega) hlt
      (by simp [Reaches, htm, SchedMode.passed]) hend (by omega)
    exact ⟨_, u, u', q, hrun.append hrun', hstep, hq, hl⟩

/-- A RUNNABLE process at a level. -/
def waitingAt (lvl : Int32) : Proc := { Proc.fresh with state := .runnable, curQueueLvl := lvl }

/-- A table with RUNNABLE processes at the levels `l₀` and `l₁` in the first two slots. -/
def pair (l₀ l₁ : Int32) (p : ProcId) : Proc :=
  if p = 0 then waitingAt l₀ else if p = 1 then waitingAt l₁ else .fresh

/-- A process at level 0 that loses the CPU after one tick is RUNNABLE at level 0 behind the sweep,
which goes on and dispatches a process at level 1. -/
theorem strict_priority_fails : ∃ as s s' p p', Run Step ⟨pair 0 1, .window⟩ as s ∧
    Step s (.dispatch p) s' ∧ (s.procs p').state = .runnable ∧
    (s.procs p').curQueueLvl < (s.procs p).curQueueLvl := by
  have h₁ : Run Step ⟨pair 0 1, .window⟩ _ _ :=
    (Run.nil.snoc (.start rfl)).snoc (.dispatch (n := 0) rfl (by decide) (by decide))
  have h₂ := run_skips Step.skip (h₁.snoc (.tick rfl)) (by decide) 64 (by decide) (by decide)
  exact ⟨_, _, _, _, 0, h₂, .dispatch rfl (by decide) (by decide), by decide, by decide⟩

/-- Two processes share level 0 for a sweep, one tick each. Its second tick takes the first one to level
1, ahead of the sweep, and the second one is dispatched at level 0. -/
theorem strict_priority_orderly_demoted : ∃ as s s',
    Run (Guarded Step Orderly) ⟨pair 0 0, .window⟩ as s ∧ Step s (.dispatch 1) s' ∧
    (s.procs 0).state = .runnable ∧ (s.procs 1).curQueueLvl < (s.procs 0).curQueueLvl ∧
    ∀ p', (s.procs p').state = .runnable → (s.procs 1).curQueueLvl ≤ (s.procs p').curQueueLvl := by
  have hskip : ∀ {s : Sched} {n}, s.mode = .scan n → n < places → ¬ s.Eligible n →
      Guarded Step Orderly s .skip { s with mode := .scan (n + 1) } :=
    fun hm hn he => ⟨by trivial, .skip hm hn he⟩
  have h₁ : Run (Guarded Step Orderly) ⟨pair 0 0, .window⟩ _ _ :=
    (Run.nil.snoc ⟨by trivial, .start rfl⟩).snoc ⟨by trivial, .dispatch (n := 0) rfl (by decide) (by decide)⟩
  have h₂ := h₁.snoc ⟨by change Admits _ _ _; decide, .tick rfl⟩
  have h₃ := h₂.snoc ⟨by trivial, .dispatch rfl (by decide) (by decide)⟩
  have h₄ := run_skips hskip (h₃.snoc ⟨by change Admits _ _ _; decide, .tick rfl⟩) (by decide) 254
    (by decide) (by decide)
  have h₅ := (h₄.snoc ⟨by trivial, .finish rfl⟩).snoc ⟨by trivial, .start rfl⟩
  have h₆ := h₅.snoc ⟨by trivial, .dispatch (n := 0) rfl (by decide) (by decide)⟩
  have h₇ := h₆.snoc ⟨by change Admits _ _ _; decide, .tick rfl⟩
  exact ⟨_, _, _, h₇, .dispatch (n := 1) rfl (by decide) (by decide), by decide, by decide,
    strict_priority_orderly (by decide) rfl h₇ (.dispatch (n := 1) rfl (by decide) (by decide))⟩

/-! ## No process is passed over -/

/-- A RUNNABLE process that was not dispatched in the steps `as` since a sweep began: before the next
sweep it is ahead of the sweep, or a boost moved it to level 0; in the next sweep it is both. -/
structure Waiting (p : ProcId) (as : List SchedAct) (s : Sched) : Prop where
  runnable : (s.procs p).state = .runnable
  quiet : .start ∉ as → .boost ∉ as → s.mode.passed ≤ placeOf p (s.procs p)
  first : .start ∉ as → (s.procs p).curQueueLvl = 0 ∨ s.mode.passed ≤ placeOf p (s.procs p)
  second : .start ∈ as → (s.procs p).curQueueLvl = 0 ∧ s.mode.passed ≤ placeOf p (s.procs p)

/-- The sweep does not pass a RUNNABLE process without dispatching it. -/
theorem Step.passed_le (h : Step s a s') (hs : s.Ok) (hp : (s.procs p).state = .runnable)
    (hd : a ≠ .dispatch p) (hle : s.mode.passed ≤ placeOf p (s.procs p)) :
    s'.mode.passed ≤ placeOf p (s.procs p) := by
  rcases h.passed with ⟨_, _, hm, _⟩ | ⟨n, hn, hm, hm', _, hcase⟩ | ⟨hm, _⟩
  · rw [hm]
    exact Nat.zero_le _
  · rw [hm] at hle
    have hne : placeOf p (s.procs p) ≠ n := by
      intro hplace
      obtain ⟨rfl, hl⟩ := (placeOf_eq_iff (hs.level p) hn).mp hplace
      rcases hcase with ⟨_, he, _⟩ | ⟨ha, _⟩
      · exact he ⟨hp, hl⟩
      · exact hd ha
    rw [hm']
    exact Nat.lt_of_le_of_ne hle (Ne.symm hne)
  · rw [hm]
    exact hle

theorem Waiting.boost {as : List SchedAct} (hw : Waiting p as s) :
    Waiting p (as ++ [.boost]) { s with procs := fun p => (s.procs p).boost } := by
  have hl : (s.procs p).boost.curQueueLvl = 0 := by simp [Proc.boost, hw.runnable]
  refine ⟨Proc.boost_state.trans hw.runnable, fun _ hb => ?_, fun _ => .inl hl, fun hst => ⟨hl, ?_⟩⟩
  · simp at hb
  · obtain ⟨hz, hle⟩ := hw.second (by simpa using hst)
    rw [placeOf_level_zero hz] at hle
    show s.mode.passed ≤ placeOf p (s.procs p).boost
    rw [placeOf_level_zero hl]
    exact hle

/-- A process that is not dispatched goes on waiting. -/
theorem Waiting.step {as : List SchedAct} (hw : Waiting p as s) (hs : s.Ok) (h : Step s a s')
    (hd : a ≠ .dispatch p) : Waiting p (as ++ [a]) s' := by
  by_cases hb : a = .boost
  · subst hb
    cases h with
    | boost => exact hw.boost
  have hframe := h.runnable_frame hs hw.runnable hd hb
  have hkeep := h.passed_le hs hw.runnable hd
  have hplace := placeOf_lt (p := p) (hs.level p)
  by_cases hst : a = .start
  · subst hst
    -- the sweep before is over, so the process was boosted behind it
    have hwin : s.mode = .window ∧ s'.mode = .scan 0 := by
      cases h with
      | start hm => exact ⟨hm, rfl⟩
    have hlate : ¬ s.mode.passed ≤ placeOf p (s.procs p) := by
      rw [hwin.1]
      exact Nat.not_le.mpr hplace
    have hz : (s.procs p).curQueueLvl = 0 := by
      by_cases hin : .start ∈ as
      · exact (hw.second hin).1
      · exact (hw.first hin).resolve_right hlate
    refine ⟨by rw [hframe]; exact hw.runnable, fun hn => ?_, fun hn => ?_, fun _ => ⟨?_, ?_⟩⟩
    · simp at hn
    · simp at hn
    · rw [hframe]
      exact hz
    · rw [hwin.2]
      exact Nat.zero_le _
  · have hmem : .start ∈ as ++ [a] ↔ .start ∈ as := by simp [Ne.symm hst]
    refine ⟨by rw [hframe]; exact hw.runnable, fun hn hnb => ?_, fun hn => ?_, fun hin => ?_⟩
    · rw [hframe]
      exact hkeep (hw.quiet (hmem.not.mp hn) fun h => hnb (List.mem_append_left _ h))
    · rw [hframe]
      exact (hw.first (hmem.not.mp hn)).imp_right hkeep
    · rw [hframe]
      exact (hw.second (hmem.mp hin)).imp_right hkeep

/-- A process that is never dispatched waits all along. -/
theorem waiting_of_run {s₀ : Sched} {as : List SchedAct} (h₀ : s₀.Ok) (hm : s₀.mode = .scan 0)
    (hp : (s₀.procs p).state = .runnable) (h : Run Step s₀ as s) (hd : .dispatch p ∉ as) :
    Waiting p as s := by
  induction h with
  | nil =>
    have hle : s₀.mode.passed ≤ placeOf p (s₀.procs p) := by
      rw [hm]
      exact Nat.zero_le _
    exact ⟨hp, fun _ _ => hle, fun _ => .inr hle, fun h => by cases h⟩
  | @snoc as s s' a hrun hstep ih =>
    have hne : a ≠ .dispatch p := by
      rintro rfl
      exact hd (by simp)
    exact (ih fun h => hd (List.mem_append_left _ h)).step (h₀.run hrun) hstep hne

/-- A sweep dispatches the process of a slot at most once for each place of the slot it passed. -/
theorem dispatches_le {s₀ : Sched} {as : List SchedAct} (h : Run Step s₀ as s)
    (hns : .start ∉ as) : as.count (.dispatch p) ≤ (s.mode.passed + (nproc - 1) - p) / nproc := by
  induction h with
  | nil => simp
  | @snoc as s s' a hrun hstep ih =>
    have hin : .start ∉ as := fun h => hns (List.mem_append_left _ h)
    have ih := ih hin
    rw [List.count_append, List.count_singleton]
    rcases hstep.passed with ⟨ha, _⟩ | ⟨n, hn, hm, hm', _, hcase⟩ | ⟨hm, _, ha⟩
    · exact absurd (by simp [ha]) hns
    · rw [hm] at ih
      have ih : as.count (.dispatch p) ≤ (n + (nproc - 1) - p) / nproc := ih
      rw [hm']
      have hp := p.isLt
      rcases hcase with ⟨rfl, _⟩ | ⟨rfl, _⟩
      · simp only [beq_iff_eq, reduceCtorEq, if_false]
        unfold nproc at *
        omega
      · by_cases heq : slotAt n = p
        · have hval : n % nproc = p := congrArg Fin.val heq
          simp only [heq, beq_self_eq_true, if_true]
          unfold nproc at *
          omega
        · have hf : (SchedAct.dispatch (slotAt n) == .dispatch p) = false := by simpa using heq
          rw [hf]
          simp only [Bool.false_eq_true, if_false]
          unfold nproc at *
          omega
    · rw [hm]
      have hf : (a == .dispatch p) = false := by simpa using ha p
      rw [hf]
      exact ih

/-- **No process is passed over**: a process that is RUNNABLE when a sweep begins is dispatched before
the end of the next sweep, and, in a sweep without a boost, at least once and at most four times in
that sweep. A run that ends between sweeps has completed one sweep, and one more for each `start`. -/
theorem dispatched_within_two_sweeps {s₀ : Sched} {as : List SchedAct}
    (h₀ : ∀ p, (s₀.procs p).LevelOk) (hm : s₀.mode = .scan 0)
    (hp : (s₀.procs p).state = .runnable) (h : Run Step s₀ as s) (hend : s.mode = .window) :
    (.start ∈ as → 1 ≤ as.count (.dispatch p)) ∧
    (.start ∉ as → .boost ∉ as → 1 ≤ as.count (.dispatch p) ∧ as.count (.dispatch p) ≤ 4) := by
  have hok₀ : s₀.Ok := ⟨h₀, by simp [hm]⟩
  have hlate : ¬ s.mode.passed ≤ placeOf p (s.procs p) := by
    rw [hend]
    exact Nat.not_le.mpr (placeOf_lt ((hok₀.run h).level p))
  refine ⟨fun hst => ?_, fun hst hb => ⟨?_, ?_⟩⟩
  · apply List.one_le_count_iff.mpr
    by_contra hd
    exact hlate ((waiting_of_run hok₀ hm hp h hd).second hst).2
  · apply List.one_le_count_iff.mpr
    by_contra hd
    exact hlate ((waiting_of_run hok₀ hm hp h hd).quiet hst hb)
  · have hle := dispatches_le (p := p) h hst
    rw [hend] at hle
    have hle : as.count (.dispatch p) ≤ (places + (nproc - 1) - p) / nproc := hle
    unfold places nproc at *
    omega

/-- A sweep in which the process of slot 0 is dispatched once and then sleeps. -/
theorem dispatched_within_two_sweeps_sleep : ∃ as s,
    Run Step ⟨pair 0 0, .scan 0⟩ as s ∧ 1 ≤ as.count (.dispatch 0) ∧ as.count (.dispatch 0) ≤ 4 := by
  have h₁ : Run Step ⟨pair 0 0, .scan 0⟩ _ _ :=
    (Run.nil.snoc (.dispatch (n := 0) rfl (by decide) (by decide))).snoc (@Step.sleep _ _ 1 rfl)
  have h₂ := (h₁.snoc (.dispatch rfl (by decide) (by decide))).snoc (@Step.exit _ _ 0 rfl)
  have h₃ := run_skips Step.skip h₂ (by decide) 254 (by decide) (by decide)
  have h₄ := h₃.snoc (.finish rfl)
  exact ⟨_, _, h₄, (dispatched_within_two_sweeps (by decide) rfl rfl h₄ rfl).2 (by decide) (by decide)⟩

end Sched

end Xv6
