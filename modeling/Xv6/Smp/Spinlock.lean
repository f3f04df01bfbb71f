import Xv6.Lib.Counting
import Xv6.Lib.Transition

/-!
# Spin locks

`kernel/spinlock.c`, one memory access at a time: any number of harts take and release any number of
locks, nested as they like, and their accesses interleave in any order. The rest of the development
takes a critical section as one step. Here is why it may: every run of the code is a run of locks that
are taken and given back in one step each.

`push_off` and `pop_off` touch only the hart's own `struct cpu`, so each is one step; they nest no deeper
than calls do, so `noff` is a number. A hart also runs the pairs of them in `myproc` and `uartputc_sync`,
the `intr_on` and `intr_off` of `usertrap` and `scheduler`, with `noff` zero, and the write of `intena`
that ends `sched`.
-/

namespace Xv6.Smp

open Transition

/-- `struct spinlock`. -/
structure Spinlock (H : Type) where
  locked : Bool
  cpu : Option H

/-- Where a hart is in `acquire` and `release`. The two reads of `holding` are two points. -/
inductive Point (L : Type)
  | outside
  | acquireLocked (l : L)
  | acquireCpu (l : L)
  | swap (l : L)
  | setCpu (l : L)
  | releaseLocked (l : L)
  | releaseCpu (l : L)
  | clearCpu (l : L)
  | unlock (l : L)
  | popOff
  | panicked

/-- The messages of `panic`. -/
inductive Message (L : Type)
  | acquire (l : L)
  | release (l : L)
  | popOffInterruptible
  | popOff

/-- `struct cpu`, with the interrupt flag of the hart's `sstatus` and the number of `push_off`s of other
code that it has not popped yet. -/
structure Cpu (L : Type) where
  point : Point L
  noff : Nat
  intena : Bool
  intr : Bool
  pushed : Nat

/-- `push_off()`. -/
def Cpu.pushOff {L : Type} (c : Cpu L) : Cpu L :=
  { c with intr := false, intena := if c.noff = 0 then c.intr else c.intena, noff := c.noff + 1 }

/-- `pop_off()`. -/
def Cpu.popOff {L : Type} (c : Cpu L) : Except (Message L) (Cpu L) :=
  if c.intr then .error .popOffInterruptible
  else if c.noff < 1 then .error .popOff
  else
    let c := { c with noff := c.noff - 1 }
    .ok (if c.noff = 0 && c.intena then { c with intr := true } else c)

structure State (H L : Type) where
  lock : L → Spinlock H
  cpu : H → Cpu L

variable {H L : Type} [DecidableEq H] [DecidableEq L]

/-- `initlock` on every lock; the harts start with interrupts as given. -/
def State.init (on : H → Bool) : State H L :=
  ⟨fun _ => ⟨false, none⟩, fun h => ⟨.outside, 0, false, on h, 0⟩⟩

def State.setCpu (s : State H L) (h : H) (c : Cpu L) : State H L :=
  { s with cpu := Function.update s.cpu h c }

def State.setLock (s : State H L) (l : L) (k : Spinlock H) : State H L :=
  { s with lock := Function.update s.lock l k }

def State.goto (s : State H L) (h : H) (p : Point L) : State H L :=
  s.setCpu h { s.cpu h with point := p }

/-- What a step does to the locks, if anything. -/
inductive Action (H L : Type)
  | work (h : H)
  | take (h : H) (l : L)
  | give (h : H) (l : L)
  | intr (h : H) (on : Bool)
  | panic (h : H) (m : Message L)

/-- The next access of a hart inside `acquire` or `release`. -/
def State.access (s : State H L) (h : H) : Action H L × State H L :=
  match (s.cpu h).point with
  | .outside | .panicked => (.work h, s)
  | .acquireLocked l =>
    (.work h, s.goto h (if (s.lock l).locked then .acquireCpu l else .swap l))
  | .acquireCpu l =>
    if (s.lock l).cpu = some h then (.panic h (.acquire l), s.goto h .panicked)
    else (.work h, s.goto h (.swap l))
  | .swap l =>
    if (s.lock l).locked then (.work h, s)
    else (.take h l, (s.setLock l { s.lock l with locked := true }).goto h (.setCpu l))
  | .setCpu l => (.work h, (s.setLock l { s.lock l with cpu := some h }).goto h .outside)
  | .releaseLocked l =>
    if (s.lock l).locked then (.work h, s.goto h (.releaseCpu l))
    else (.panic h (.release l), s.goto h .panicked)
  | .releaseCpu l =>
    if (s.lock l).cpu = some h then (.work h, s.goto h (.clearCpu l))
    else (.panic h (.release l), s.goto h .panicked)
  | .clearCpu l => (.work h, (s.setLock l { s.lock l with cpu := none }).goto h (.unlock l))
  | .unlock l => (.give h l, (s.setLock l { s.lock l with locked := false }).goto h .popOff)
  | .popOff =>
    match (s.cpu h).popOff with
    | .ok c => (.work h, s.setCpu h { c with point := .outside })
    | .error m => (.panic h m, s.goto h .panicked)

/-- One step of one hart. -/
inductive Step (s : State H L) : Action H L → State H L → Prop
  | access (h : H) : Step s (s.access h).1 (s.access h).2
  | acquire {h : H} (l : L) (hp : (s.cpu h).point = .outside) :
      Step s (.work h) (s.setCpu h { (s.cpu h).pushOff with point := .acquireLocked l })
  | release {h : H} (l : L) (hp : (s.cpu h).point = .outside) :
      Step s (.work h) (s.goto h (.releaseLocked l))
  | pushOff {h : H} (hp : (s.cpu h).point = .outside) :
      Step s (.work h) (s.setCpu h { (s.cpu h).pushOff with pushed := (s.cpu h).pushed + 1 })
  | popOff {h : H} {n : Nat} (hp : (s.cpu h).point = .outside) (hn : (s.cpu h).pushed = n + 1) :
      Step s (.work h) (s.setCpu h { s.cpu h with pushed := n, point := .popOff })
  | intr {h : H} {on : Bool} (hp : (s.cpu h).point = .outside) (hnoff : (s.cpu h).noff = 0) :
      Step s (.intr h on) (s.setCpu h { s.cpu h with intr := on })
  | sched {h : H} {on : Bool} (hp : (s.cpu h).point = .outside) (hnoff : (s.cpu h).noff = 1) :
      Step s (.intr h on) (s.setCpu h { s.cpu h with intena := on })

/-! ## Locks taken and given back in one step -/

/-- Who holds each lock, and whether each hart wants interrupts while it holds none. -/
structure Locks (H L : Type) where
  owner : L → Option H
  enabled : H → Bool

/-- What may happen to them: a free lock is taken, the owner gives a lock back, `acquire` panics in the
owner and `release` in any other hart. `pop_off` does not panic. -/
@[grind] def Locks.Allows (t : Locks H L) : Action H L → Prop
  | .take _ l => t.owner l = none
  | .give h l | .panic h (.acquire l) => t.owner l = some h
  | .panic h (.release l) => t.owner l ≠ some h
  | .panic _ _ => False
  | _ => True

def Locks.after (t : Locks H L) : Action H L → Locks H L
  | .take h l => { t with owner := Function.update t.owner l (some h) }
  | .give _ l => { t with owner := Function.update t.owner l none }
  | .intr h on => { t with enabled := Function.update t.enabled h on }
  | _ => t

/-- One step of such locks. -/
def Atomic : Locks H L → Action H L → Locks H L → Prop :=
  Guarded (fun t a t' => t' = t.after a) Locks.Allows

/-- A point of the owner at which `lk->cpu` does not name it: after the swap of `acquire` and before
the one of `release`. -/
@[grind] def Point.unnamed (p : Point L) (l : L) : Prop := p = .setCpu l ∨ p = .unlock l

/-- The `push_off` of an `acquire` that does not own its lock yet, or of a `release` that gave it back. -/
@[grind] def Point.pending : Point L → Nat
  | .acquireLocked _ | .acquireCpu _ | .swap _ | .popOff => 1
  | _ => 0

/-- The locks a hart owns. -/
def Locks.held [Fintype L] (t : Locks H L) (h : H) : Finset L :=
  Finset.univ.filter fun l => t.owner l = some h

variable [Fintype L]

/-- What a state of the code means. -/
structure Sim (s : State H L) (t : Locks H L) : Prop where
  locked : ∀ l, (s.lock l).locked = (t.owner l).isSome
  cpu : ∀ l h, (s.lock l).cpu = some h ↔ t.owner l = some h ∧ ¬ (s.cpu h).point.unnamed l
  owns : ∀ l h, (s.cpu h).point.unnamed l ∨ (s.cpu h).point = .clearCpu l → t.owner l = some h
  depth : ∀ h, (t.held h).card ≤ (s.cpu h).noff
  noff : ∀ h, (s.cpu h).point ≠ .panicked →
    (s.cpu h).noff = (t.held h).card + (s.cpu h).point.pending + (s.cpu h).pushed
  off : ∀ h, (s.cpu h).noff ≠ 0 → (s.cpu h).intr = false ∧ (s.cpu h).intena = t.enabled h
  on : ∀ h, (s.cpu h).noff = 0 → (s.cpu h).intr = t.enabled h

variable {s : State H L} {t : Locks H L}

/-- The number of locks a hart owns when the owner of one changes. -/
theorem Locks.card_held_update (l : L) (o : Option H) (h : H) :
    (Locks.held { t with owner := Function.update t.owner l o } h).card +
      (if t.owner l = some h then 1 else 0) = (t.held h).card + if o = some h then 1 else 0 :=
  Counting.card_filter_update (· = some h) t.owner l o

omit [DecidableEq L] in
/-- A step on the hart's own `struct cpu`. -/
theorem Sim.setCpu (hs : Sim s t) {h : H} {c : Cpu L} {e : H → Bool}
    (hunnamed : ∀ l, c.point.unnamed l ↔ (s.cpu h).point.unnamed l)
    (howns : ∀ l, c.point = .clearCpu l → t.owner l = some h)
    (hdepth : (t.held h).card ≤ c.noff)
    (hnoff : c.point ≠ .panicked → c.noff = (t.held h).card + c.point.pending + c.pushed)
    (hoff : c.noff ≠ 0 → c.intr = false ∧ c.intena = e h) (hon : c.noff = 0 → c.intr = e h)
    (he : ∀ x, x ≠ h → e x = t.enabled x) : Sim (s.setCpu h c) { t with enabled := e } := by
  obtain ⟨locked, cpu, owns, depth, noff, off, on⟩ := hs
  have hheld : ∀ x, Locks.held { t with enabled := e } x = t.held x := fun _ => rfl
  constructor <;> simp only [State.setCpu, Function.update_apply, hheld] <;> grind -linarith

omit [DecidableEq L] in
/-- A step that reads. -/
theorem Sim.goto (hs : Sim s t) {h : H} {p : Point L}
    (hunnamed : ∀ l, p.unnamed l ↔ (s.cpu h).point.unnamed l)
    (howns : ∀ l, p = .clearCpu l → t.owner l = some h)
    (hnoff : p ≠ .panicked → (s.cpu h).noff = (t.held h).card + p.pending + (s.cpu h).pushed) :
    Sim (s.goto h p) t :=
  hs.setCpu hunnamed howns (hs.depth h) hnoff (hs.off h) (hs.on h) fun _ _ => rfl

/-- **One access.** -/
theorem Sim.access (hs : Sim s t) (h : H) :
    t.Allows (s.access h).1 ∧ Sim (s.access h).2 (t.after (s.access h).1) := by
  have hnoff := hs.noff h
  unfold State.access
  cases hp : (s.cpu h).point with
  | outside | panicked => exact ⟨trivial, hs⟩
  | acquireLocked l => exact ⟨trivial, hs.goto (by grind) (by grind) (by grind)⟩
  | acquireCpu l | releaseLocked l | releaseCpu l =>
    have hlocked := hs.locked l
    have hcpu := hs.cpu l h
    dsimp only
    split <;> exact ⟨by grind, hs.goto (by grind) (by grind) (by grind)⟩
  | swap l | setCpu l | clearCpu l | unlock l =>
    have hfree : (s.lock l).locked ≠ true → t.owner l = none := by simp [hs.locked l]
    have hheld := hs.owns l h
    have hcard := fun o x => t.card_held_update l o x
    obtain ⟨locked, cpu, owns, depth, noff, off, on⟩ := hs
    dsimp only
    try split
    all_goals
      refine ⟨by grind, ?_⟩
      constructor <;> simp only [State.setCpu, State.setLock, State.goto, Locks.after,
        Function.update_apply] <;> grind -linarith
  | popOff =>
    -- `release` has given the lock back but the hart still counts it, so `pop_off` does not panic
    have hcount : (s.cpu h).noff = (t.held h).card + (s.cpu h).pushed + 1 := by
      simpa [hp, Point.pending, Nat.add_right_comm] using hnoff
    obtain ⟨hintr, hintena⟩ := hs.off h (by omega)
    simp only [Cpu.popOff, hintr, hcount, hintena]
    refine ⟨trivial, hs.setCpu (e := t.enabled) ?_ ?_ ?_ ?_ ?_ ?_ ?_⟩ <;> grind -linarith

/-- **One step.** -/
theorem Sim.step (s : State H L) (t : Locks H L) (a : Action H L) (s' : State H L) (hs : Sim s t)
    (hstep : Step s a s') : ∃ t', Atomic t a t' ∧ Sim s' t' := by
  refine ⟨t.after a, ?_⟩
  cases hstep with
  | access h => exact ⟨⟨(hs.access h).1, rfl⟩, (hs.access h).2⟩
  | @acquire h l hp | @pushOff h hp =>
    have hoff := hs.off h
    have hon := hs.on h
    refine ⟨⟨trivial, rfl⟩, hs.setCpu (e := t.enabled) ?_ ?_ ?_ ?_ ?_ ?_ ?_⟩ <;>
      simp only [Cpu.pushOff] <;> grind [hs.depth h, hs.noff h]
  | @release h l hp =>
    refine ⟨⟨trivial, rfl⟩, hs.goto ?_ ?_ ?_⟩ <;> grind [hs.noff h]
  | @popOff h n hp hn | @intr h on hp hnoff | @sched h on hp hnoff =>
    refine ⟨⟨trivial, rfl⟩, hs.setCpu ?_ ?_ ?_ ?_ ?_ ?_ ?_⟩ <;>
      grind [hs.depth h, hs.noff h, hs.off h, Locks.after]

omit [DecidableEq L] in
theorem Sim.start (on : H → Bool) : Sim (State.init on : State H L) ⟨fun _ => none, on⟩ := by
  constructor <;> simp [State.init, Locks.held, Point.unnamed, Point.pending]

/-- **Spin locks are locks.** However the accesses interleave, the code does to the locks only what
`Locks.Allows`. In every state `lk->cpu` names only the owner, a hart that owns a lock has interrupts
off, and for a hart outside both functions `noff` counts the locks it owns and its other `push_off`s,
and its interrupts are as it wants them when there are none. -/
theorem spinlock_refines {on : H → Bool} {as : List (Action H L)}
    (hrun : Run Step (State.init on) as s) :
    ∃ t : Locks H L, Run Atomic ⟨fun _ => none, on⟩ as t ∧
      (∀ l h, (s.lock l).cpu = some h → t.owner l = some h) ∧
      (∀ l h, t.owner l = some h → (s.cpu h).intr = false) ∧
      ∀ h, (s.cpu h).point = .outside → (∀ l, t.owner l = some h ↔ (s.lock l).cpu = some h) ∧
        (s.cpu h).noff = (t.held h).card + (s.cpu h).pushed ∧
        ((∀ l, t.owner l ≠ some h) → (s.cpu h).pushed = 0 → (s.cpu h).intr = t.enabled h) := by
  obtain ⟨t, ht, hs⟩ := hrun.simulate (Sim.start on) Sim.step
  refine ⟨t, ht, fun l h hcpu => ((hs.cpu l h).mp hcpu).1, ?_, ?_⟩
  · intro l h hheld
    have hpos : 0 < (t.held h).card := Finset.card_pos.mpr ⟨l, by simp [Locks.held, hheld]⟩
    exact (hs.off h (hpos.trans_le (hs.depth h)).ne').1
  · intro h hp
    have hnoff : (s.cpu h).noff = (t.held h).card + (s.cpu h).pushed := by
      simpa [hp, Point.pending] using hs.noff h (by simp [hp])
    refine ⟨fun l => by simp [hs.cpu, hp, Point.unnamed], hnoff, ?_⟩
    intro hnone hpushed
    exact hs.on h (by simp [hnoff, Locks.held, hnone, hpushed])

/-- One of two harts took the lock. -/
theorem spinlock_refines_taken : ∃ t : Locks Bool Unit,
    Run Atomic ⟨fun _ => none, fun _ => true⟩
      [.work true, .work true, .take true (), .work true] t ∧ t.owner () = some true := by
  have hrun := (((Run.nil.snoc
    (Step.acquire (s := State.init fun _ : Bool => true) (h := true) () rfl)).snoc
    (Step.access true)).snoc (Step.access true)).snoc (Step.access true)
  obtain ⟨t, ht, hcpu, -⟩ := spinlock_refines hrun
  exact ⟨t, ht, hcpu () true rfl⟩

end Xv6.Smp
