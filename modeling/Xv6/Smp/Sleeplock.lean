import Xv6.Lib.Transition
import Xv6.Param

/-!
# Sleep locks, `sleep` and `wakeup`

`kernel/sleeplock.c` with `sleep` and `wakeup` of `kernel/proc.c`, for one lock and every process of the
table. A critical section of `lk->lk` or of a `p->lock` is one step (`Smp/Spinlock.lean`), but `sleep`
and `wakeup` overlap two of them: `wakeup` takes one `p->lock` after the other inside `lk->lk`, and
`sleep` gives up `lk->lk` once it has its `p->lock` and sets `SLEEPING` in a later step. `kkill` may wake a
process at any time.
-/

namespace Xv6.Sleeplock

open Function

/-- Where a process is. -/
inductive Point
  | idle
  | acquire     -- waits for `lk->lk` in `acquiresleep`, also at the end of `sleep`
  | sleepLock   -- in `sleep`, inside `lk->lk`
  | sleepState  -- in `sleep`, with its `p->lock` only, about to set `SLEEPING` and switch away
  | asleep      -- switched away
  | holding     -- past `acquiresleep`
  | release     -- waits for `lk->lk` in `releasesleep`
  | wakeup (rest : List ProcId) -- inside `lk->lk`, with the slots `wakeup` has yet to look at
  deriving DecidableEq

/-- The lock, who is inside `lk->lk`, and for each process where it is and whether it is `SLEEPING` with
`chan` set to the lock. Between steps a process holds its `p->lock` at `sleepState` only. -/
structure State where
  locked : Bool
  pid : Option ProcId
  lk : Option ProcId
  point : ProcId → Point
  sleeping : ProcId → Bool

/-- `initsleeplock`. -/
def State.init : State := ⟨false, none, none, fun _ => .idle, fun _ => false⟩

def State.goto (s : State) (p : ProcId) (x : Point) : State :=
  { s with point := update s.point p x }

def State.setSleeping (s : State) (p : ProcId) (b : Bool) : State :=
  { s with sleeping := update s.sleeping p b }

/-- The process holds its `p->lock`. -/
@[grind] def Point.plocked : Point → Bool
  | .sleepState => true
  | _ => false

/-- The next step of a process inside these functions, if it need not wait. -/
def State.next (s : State) (p : ProcId) : Option State :=
  match s.point p with
  | .idle | .holding => none
  | .acquire =>
    if s.lk ≠ none then none
    else if s.locked then some ({ s with lk := some p }.goto p .sleepLock)
    else some ({ s with locked := true, pid := some p }.goto p .holding)
  | .sleepLock => some ({ s with lk := none }.goto p .sleepState)
  | .sleepState => some ((s.setSleeping p true).goto p .asleep)
  | .asleep => if s.sleeping p then none else some (s.goto p .acquire)
  | .release =>
    if s.lk ≠ none then none
    else some ({ s with lk := some p, locked := false, pid := none }.goto p
      (.wakeup (List.finRange nproc)))
  | .wakeup [] => some ({ s with lk := none }.goto p .idle)
  | .wakeup (q :: rest) =>
    if q = p then some (s.goto p (.wakeup rest))
    else if (s.point q).plocked then none
    else some ((s.setSleeping q false).goto p (.wakeup rest))

/-- A step of the process that is named. -/
inductive Step (s : State) : ProcId → State → Prop
  | next {p s'} (h : s.next p = some s') : Step s p s'
  | acquiresleep {p} (h : s.point p = .idle) : Step s p (s.goto p .acquire)
  | releasesleep {p} (h : s.point p = .holding) : Step s p (s.goto p .release)
  | kkill {p} (h : (s.point p).plocked = false) : Step s p (s.setSleeping p false)

/-! ## The invariant -/

/-- The process is inside `lk->lk`. -/
@[grind] def Point.inside : Point → Bool
  | .sleepLock | .wakeup _ => true
  | _ => false

/-- The process sleeps, or will in its next step. -/
def State.Waiting (s : State) (p : ProcId) : Prop := s.point p = .sleepState ∨ s.sleeping p = true

/-- The lock is taken, or a `wakeup` will still look at the process. -/
def State.Due (s : State) (p : ProcId) : Prop :=
  s.locked = true ∨ ∃ w rest, s.point w = .wakeup rest ∧ p ∈ rest

/-- Where the processes are, as the lock has it. -/
structure Placed (s : State) : Prop where
  lk : ∀ p, (s.point p).inside = true ↔ s.lk = some p
  owner : ∀ p, s.point p = .holding ∨ s.point p = .release ↔ s.pid = some p
  locked : s.locked = s.pid.isSome
  asleep : ∀ p, s.sleeping p = true → s.point p = .asleep
  tested : ∀ p, s.point p = .sleepLock → s.locked = true

structure Inv (s : State) : Prop extends Placed s where
  due : ∀ p, s.Waiting p → s.Due p

theorem Inv.init : Inv State.init where
  toPlaced := by constructor <;> simp [State.init, Point.inside]
  due p h := by simp [State.Waiting, State.init] at h

section Steps

variable {s s' : State} {p q : ProcId} {x : Point}

theorem Placed.next (hs : Placed s) (h : s.next p = some s') : Placed s' := by
  obtain ⟨lk, owner, locked, asleep, tested⟩ := hs
  unfold State.next at h
  repeat' split at h
  all_goals
    cases h <;> constructor <;>
      simp only [State.goto, State.setSleeping, update_apply, Option.isSome] at * <;> grind -linarith

/-- Every step keeps the processes where the lock has them. -/
theorem Placed.step (hs : Placed s) (h : Step s p s') : Placed s' := by
  cases h with
  | next h => exact hs.next h
  | acquiresleep h | releasesleep h | kkill h =>
    obtain ⟨lk, owner, locked, asleep, tested⟩ := hs
    constructor <;> simp only [State.goto, State.setSleeping, update_apply] at * <;> grind -linarith

theorem State.Waiting.of_goto (h : (s.goto p x).Waiting q) (hx : x ≠ .sleepState) : s.Waiting q := by
  refine h.imp_left fun hq => ?_
  by_cases hqp : q = p
  · subst hqp
    exact absurd ((update_self ..).symm.trans hq) hx
  · exact (update_of_ne hqp ..).symm.trans hq

/-- A process moves on, and if it was in `wakeup` it has not passed `q` over. -/
theorem State.Due.goto (h : s.Due q) (hp : ∀ rest, s.point p = .wakeup rest → q ∈ rest →
    ∃ rest', x = .wakeup rest' ∧ q ∈ rest') : (s.goto p x).Due q := by
  refine h.imp_right fun ⟨w, rest, hw, hq⟩ => ?_
  by_cases hwp : w = p
  · subst hwp
    obtain ⟨rest', rfl, hq'⟩ := hp rest hw hq
    exact ⟨w, rest', update_self .., hq'⟩
  · exact ⟨w, rest, (update_of_ne hwp ..).trans hw, hq⟩

/-- A process that is not asleep does not count as sleeping. -/
theorem Placed.not_waiting (hs : Placed s) (h₁ : s.point p ≠ .sleepState) (h₂ : s.point p ≠ .asleep) :
    ¬ s.Waiting p :=
  fun h => h.elim h₁ fun h => h₂ (hs.asleep p h)

/-- **No wake-up is lost.** A process that goes to sleep found the lock taken, and `wakeup` starts
with the whole table and passes over no process that sleeps or is about to: while it is about to it
holds its `p->lock`. -/
theorem Inv.due_next (hs : Inv s) (h : s.next p = some s') (hq : s'.Waiting q) : s'.Due q := by
  unfold State.next at h
  cases hp : s.point p with simp only [hp] at h
  | idle | holding => cases h
  | acquire =>
    split at h
    · cases h
    · split at h <;> cases h
      · exact (hs.due q (.of_goto hq nofun)).goto (by simp [hp])
      · exact .inl rfl
  | sleepLock =>
    cases h
    exact .inl (hs.tested p hp)
  | sleepState =>
    cases h
    by_cases hqp : q = p
    · exact (hs.due q (.inl (hqp ▸ hp))).goto (by simp [hp])
    · refine (hs.due q ?_).goto (by simp [hp])
      simpa [State.Waiting, State.goto, State.setSleeping, update_of_ne hqp] using hq
  | asleep =>
    split at h <;> cases h
    exact (hs.due q (.of_goto hq nofun)).goto (by simp [hp])
  | release =>
    split at h <;> cases h
    exact .inr ⟨p, _, update_self .., List.mem_finRange q⟩
  | wakeup rest =>
    have hself := hs.not_waiting (p := p) (by simp [hp]) (by simp [hp])
    cases rest with dsimp only at h
    | nil =>
      cases h
      exact (hs.due q (.of_goto hq nofun)).goto (by simp [hp])
    | cons r rest =>
      have hmem : q ≠ r → ∀ l, s.point p = .wakeup l → q ∈ l → ∃ l', Point.wakeup rest = .wakeup l' ∧ q ∈ l' := by
        intro hqr l hl hin
        obtain rfl : r :: rest = l := Point.wakeup.inj (hp.symm.trans hl)
        exact ⟨rest, rfl, (List.mem_cons.mp hin).resolve_left hqr⟩
      split at h
      · next hrp =>
          cases h
          have hold : s.Waiting q := .of_goto hq nofun
          exact (hs.due q hold).goto (hmem fun hqr => hself (hrp ▸ hqr ▸ hold))
      · split at h <;> cases h
        next hfree =>
          have hqr : q ≠ r := by
            rintro rfl
            rcases State.Waiting.of_goto hq nofun with hst | hsl
            · exact hfree (by rw [show s.point q = .sleepState from hst]; rfl)
            · simp [State.setSleeping] at hsl
          have hold : s.Waiting q := (State.Waiting.of_goto hq nofun).imp_right fun h =>
            (update_of_ne hqr ..).symm.trans h
          exact (hs.due q hold).goto (hmem hqr)

/-- Every step keeps the invariant. -/
theorem Inv.step (s : State) (p : ProcId) (s' : State) (hs : Inv s) (hstep : Step s p s') : Inv s' := by
  refine ⟨hs.toPlaced.step hstep, fun q hq => ?_⟩
  cases hstep with
  | next h => exact hs.due_next h hq
  | acquiresleep h => exact (hs.due q (.of_goto hq nofun)).goto (by simp [h])
  | releasesleep h => exact (hs.due q (.of_goto hq nofun)).goto (by simp [h])
  | kkill h =>
    refine hs.due q (hq.imp_right fun hsl => ?_)
    by_cases hqp : q = p
    · simp [State.setSleeping, hqp] at hsl
    · exact (update_of_ne hqp ..).symm.trans hsl

end Steps

/-! ## Progress -/

/-- Why a process does not go on. -/
def State.Waits (s : State) (p : ProcId) : Prop :=
  match s.point p with
  | .idle | .holding => True
  | .acquire | .release => s.lk ≠ none
  | .asleep => s.sleeping p = true
  | .wakeup (q :: _) => (s.point q).plocked = true
  | _ => False

/-- A process without a next step waits for a lock or for a wakeup. -/
theorem State.waits_of_next {s : State} {p : ProcId} (h : s.next p = none) : s.Waits p := by
  unfold State.next at h
  unfold State.Waits
  grind

/-- **No deadlock.** -/
theorem Inv.progress {s : State} (hs : Inv s) (hnone : ∀ p, s.point p ≠ .holding) {p : ProcId}
    (hp : s.point p ≠ .idle) : ∃ q s', s.next q = some s' := by
  by_contra hstuck
  have hwait : ∀ q, s.Waits q := fun q =>
    State.waits_of_next (Option.eq_none_iff_forall_ne_some.mpr fun s' h => hstuck ⟨q, s', h⟩)
  unfold State.Waits at hwait
  -- a process inside `lk->lk` waits at most for one in `sleep`, which need not wait
  have hout : ∀ q, (s.point q).inside = false := by
    intro q
    have hq := hwait q
    cases hx : s.point q with
    | wakeup rest =>
      cases rest with
      | nil => simp [hx] at hq
      | cons r rest =>
        have hr := hwait r
        cases hy : s.point r <;> simp [hx, hy, Point.plocked] at hq hr
    | _ => simp_all [Point.inside]
  have hlk : s.lk = none := Option.eq_none_iff_forall_ne_some.mpr fun q hq => by
    simpa [hout q] using (hs.lk q).mpr hq
  have hsleep : s.sleeping p = true := by
    have := hwait p
    have := hout p
    grind
  obtain hlocked | ⟨w, rest, hw, -⟩ := hs.due p (.inr hsleep)
  · -- the owner waits for `lk->lk` in `releasesleep`, but nobody is inside
    obtain ⟨o, ho⟩ : ∃ o, s.pid = some o := Option.isSome_iff_exists.mp (hs.locked ▸ hlocked)
    have howner := (hs.owner o).mpr ho
    have hwo := hwait o
    simp_all
  · simpa [hw, Point.inside] using hout w

/-- **Sleep locks.** In every state that any interleaving reaches, at most one process is past
`acquiresleep` and before `releasesleep`, and the lock is in its name, so `holdingsleep` is right. No
wake-up is lost: once the lock is free and no `wakeup` is under way, nobody sleeps on it. And while no
process holds the lock but some process is in one of these functions, some process can go on. -/
theorem sleeplock_safe {ps : List ProcId} {s : State} (h : Transition.Run Step State.init ps s) :
    (∀ p, s.point p = .holding → s.locked = true ∧ s.pid = some p) ∧
      (∀ p q, s.point p = .holding → s.point q = .holding → p = q) ∧
      (s.locked = false → (∀ w rest, s.point w ≠ .wakeup rest) → ∀ p, s.sleeping p = false) ∧
      ((∀ p, s.point p ≠ .holding) → (∃ p, s.point p ≠ .idle) → ∃ q s', s.next q = some s') := by
  have hs : Inv s := h.invariant Inv.init Inv.step
  have hpid : ∀ p, s.point p = .holding → s.pid = some p := fun p hp => (hs.owner p).mp (.inl hp)
  refine ⟨?_, ?_, ?_, ?_⟩
  · intro p hp
    simp [hs.locked, hpid p hp]
  · intro p q hp hq
    simpa [hpid p hp] using hpid q hq
  · intro hfree hnone p
    by_contra hsleep
    obtain hlocked | ⟨w, rest, hw, -⟩ := hs.due p (.inr (by simpa using hsleep))
    · simp [hfree] at hlocked
    · exact hnone w rest hw
  · intro hnone hp
    obtain ⟨p, hp⟩ := hp
    exact hs.progress hnone hp

/-- The next step of a process, which calls `acquiresleep` and `releasesleep` in turn. -/
def State.exec (s : State) (p : ProcId) : Option State :=
  match s.point p with
  | .idle => some (s.goto p .acquire)
  | .holding => some (s.goto p .release)
  | _ => s.next p

theorem State.step_of_exec {s s' : State} {p : ProcId} (h : s.exec p = some s') : Step s p s' := by
  unfold State.exec at h
  split at h
  · next hp => exact Option.some.inj h ▸ .acquiresleep hp
  · next hp => exact Option.some.inj h ▸ .releasesleep hp
  · exact .next h

/-- A process waits for the lock in `sleep`, is woken by the one that releases it, and takes it. -/
def handover : List ProcId := [0, 0, 1, 1, 1, 1] ++ List.replicate (nproc + 3) 0 ++ [1, 1]

/-- After `handover` the process that was woken is the only holder. -/
theorem sleeplock_safe_handed : ∃ s, Transition.Run Step State.init handover s ∧
    s.point 1 = .holding ∧ s.locked = true ∧ s.pid = some 1 ∧ ∀ q, s.point q = .holding → q = 1 := by
  have hexec : (handover.foldlM State.exec State.init).any fun s => s.point 1 = .holding := by
    decide +kernel
  obtain ⟨s, hrun, hs⟩ := Transition.Run.of_exec hexec fun _ _ _ => State.step_of_exec
  have hone := of_decide_eq_true hs
  obtain ⟨hheld, hunique, -⟩ := sleeplock_safe hrun
  exact ⟨s, hrun, hone, (hheld 1 hone).1, (hheld 1 hone).2, fun q hq => hunique q 1 hq hone⟩

end Xv6.Sleeplock
