import Xv6.Proc.Mlfq

/-!
# Reuse of process slots

The process table under everything that writes the fields of a slot: creation (`allocproc`, `kfork`,
`userinit`), release (`freeproc`), scheduling, `kkill`, the counters of the paging code and those of the
swap disk. `freeproc` and `allocproc` share the work of clearing a slot; two fields escape both: a
slot that is not in use can be killed, and the disk counters are never cleared.
-/

namespace Xv6

open Transition SwapDisk Function

/-- The process table with the disk counters of each slot. -/
structure ProcTable where
  procs : ProcId → Proc
  disk : ProcId → DiskStats
  nextpid : Int32

/-- What is done to the record of a process that has a slot. -/
inductive SlotAct where
  | free
  | inherit (sz : Nat)                 -- `kfork`: `np->sz = p->sz`
  | adopt (parent : ProcId)            -- `kfork`: `np->parent = p`
  | publish
  | dispatch
  | syscall
  | tick
  | yield
  | sleep (chan : Nat)
  | tidy                               -- the end of `sleep`
  | wakeup
  | setkilled
  | exit (status : Int32)
  | resize (sz : Nat)                  -- `growproc`, `sys_sbrk`, `kexec`
  deriving DecidableEq

namespace SlotAct

/-- The states in which it happens. -/
def guard : SlotAct → ProcState → Bool
  | .free, st => st = .used || st = .zombie
  | .inherit _, st | .adopt _, st | .publish, st => st = .used
  | .dispatch, st => st = .runnable
  | .wakeup, st => st = .sleeping
  | _, st => st = .running

def apply (q : Proc) : SlotAct → Proc
  | .free => { q.release with trapframe := 0 }
  | .inherit sz => { q with sz := sz }
  | .adopt parent => { q with parent := some parent }
  | .publish => q.ready
  | .dispatch => q.dispatch
  | .syscall => q.countSyscall
  | .tick => q.tick.yield
  | .yield => q.yield
  | .sleep chan => q.sleep chan
  | .tidy => { q with chan := 0 }
  | .wakeup => q.ready
  | .setkilled => { q with killed := 1 }
  | .exit status => q.exit status
  | .resize sz => { q with sz := sz }

end SlotAct

/-- The counters of `struct proc` that the paging code updates. -/
structure VmCounters where
  pageFaults : Int32
  pagesEvicted : Int32
  pagesSwappedIn : Int32
  pagesSwappedOut : Int32
  residentPages : Int32
  deriving DecidableEq

inductive TableAct where
  | alloc (p : ProcId)
  | slot (p : ProcId) (act : SlotAct)
  | kkill (pid : Int32)
  | reparent (p init : ProcId)
  | boost
  | paging (p : ProcId) (c : VmCounters)
  | diskRequest (p : ProcId) (write : Bool) (latency : Int32)
  deriving DecidableEq

/-- What `kkill` does to the slot it finds. -/
def Proc.kill (q : Proc) : Proc :=
  { q with killed := 1, state := if q.state = .sleeping then .runnable else q.state }

/-- The pass of `reparent` over one slot. -/
def Proc.reparent (q : Proc) (p init : ProcId) : Proc :=
  if q.parent = some p then { q with parent := some init } else q

def Proc.vmCounters (q : Proc) : VmCounters :=
  ⟨q.pageFaults, q.pagesEvicted, q.pagesSwappedIn, q.pagesSwappedOut, q.residentPages⟩

def Proc.setVmCounters (q : Proc) (c : VmCounters) : Proc :=
  { q with
    pageFaults := c.pageFaults
    pagesEvicted := c.pagesEvicted
    pagesSwappedIn := c.pagesSwappedIn
    pagesSwappedOut := c.pagesSwappedOut
    residentPages := c.residentPages }

/-- The counters of a process after one more request of its own. -/
def DiskStats.request (st : DiskStats) (write : Bool) (latency : Int32) : DiskStats where
  diskReads := if write then st.diskReads else st.diskReads + 1
  diskWrites := if write then st.diskWrites + 1 else st.diskWrites
  avgDiskLatency := latency

namespace ProcTable

/-- After `procinit`. -/
def boot : ProcTable := ⟨fun _ => .fresh, fun _ => ⟨0, 0, 0⟩, 1⟩

/-- The slot `allocproc` takes. -/
def firstUnused (t : ProcTable) : Option ProcId := firstIdx fun p => (t.procs p).state == .unused

/-- The slot `kkill` finds: the first one with the given pid, in use or not. -/
def firstPid (t : ProcTable) (pid : Int32) : Option ProcId := firstIdx fun p => (t.procs p).pid == pid

def setProc (t : ProcTable) (p : ProcId) (q : Proc) : ProcTable :=
  { t with procs := update t.procs p q }

inductive Step : ProcTable → TableAct → ProcTable → Prop
  -- `allocproc` holds the lock of the slot; what it allocates besides does not touch these fields
  | alloc {t : ProcTable} {p : ProcId} (hp : t.firstUnused = some p) :
      Step t (.alloc p) { t.setProc p ((t.procs p).claim t.nextpid) with nextpid := t.nextpid + 1 }
  | slot {t : ProcTable} {p : ProcId} {act : SlotAct} (hg : act.guard (t.procs p).state) :
      Step t (.slot p act) (t.setProc p (act.apply (t.procs p)))
  | kkill {t : ProcTable} {pid : Int32} {p : ProcId} (hp : t.firstPid pid = some p) :
      Step t (.kkill pid) (t.setProc p (t.procs p).kill)
  | kkillNone {t : ProcTable} {pid : Int32} (hp : t.firstPid pid = none) : Step t (.kkill pid) t
  | reparent {t : ProcTable} {p init : ProcId} :
      Step t (.reparent p init) { t with procs := fun p' => (t.procs p').reparent p init }
  | boost {t : ProcTable} : Step t .boost { t with procs := fun p => (t.procs p).boost }
  | paging {t : ProcTable} {p : ProcId} {c : VmCounters} :
      Step t (.paging p c) (t.setProc p ((t.procs p).setVmCounters c))
  | diskRequest {t : ProcTable} {p : ProcId} {write : Bool} {latency : Int32}
      (hp : (t.procs p).state = .running) :
      Step t (.diskRequest p write latency)
        { t with disk := update t.disk p (DiskStats.request (t.disk p) write latency) }

/-! ## What a new process starts with -/

/-- The fields of a slot that a process can observe, itself or through another one. -/
structure Observed where
  killed : Int32
  chan : Nat
  xstate : Int32
  parent : Option ProcId
  sz : Nat
  syscount : Int32
  curQueueLvl : Int32
  ticksEachLevel : Int32
  ticks : Fin 4 → Int32
  noOfSchedules : Int32
  vm : VmCounters
  disk : DiskStats
  deriving DecidableEq

def observe (t : ProcTable) (p : ProcId) : Observed :=
  let q := t.procs p
  ⟨q.killed, q.chan, q.xstate, q.parent, q.sz, q.syscount, q.curQueueLvl, q.ticksEachLevel, q.ticks,
    q.noOfSchedules, q.vmCounters, t.disk p⟩

/-- Everything zero. -/
def Observed.zero : Observed :=
  ⟨0, 0, 0, none, 0, 0, 0, 0, fun _ => 0, 0, ⟨0, 0, 0, 0, 0⟩, ⟨0, 0, 0⟩⟩

/-- The fields that `allocproc` expects `freeproc` to have cleared. -/
structure Blank (q : Proc) : Prop where
  killed : q.killed = 0
  chan : q.chan = 0
  xstate : q.xstate = 0
  parent : q.parent = none
  sz : q.sz = 0

/-- A slot that is not in use is blank, and its disk counters were never used. -/
structure Clean (p : ProcId) (t : ProcTable) : Prop where
  blank : (t.procs p).state = .unused → Blank (t.procs p)
  disk : t.disk p = ⟨0, 0, 0⟩

/-- No kill hits the slot while it is not in use, and no process in it makes a disk request. -/
def Undisturbed (p : ProcId) (t : ProcTable) : TableAct → Prop
  | .kkill pid => t.firstPid pid = some p → (t.procs p).state ≠ .unused
  | .diskRequest p' _ _ => p' ≠ p
  | _ => True

instance (p : ProcId) (t : ProcTable) : DecidablePred (Undisturbed p t) := fun a => by
  unfold Undisturbed
  split <;> infer_instance

variable {t t' : ProcTable} {a : TableAct} {p : ProcId}

/-- Only `freeproc` takes a process out of its slot, and it leaves the slot blank. -/
theorem blank_apply {act : SlotAct} {q : Proc} (hg : act.guard q.state)
    (h : (act.apply q).state = .unused) : Blank (act.apply q) := by
  cases act with
  | free => exact ⟨rfl, rfl, rfl, rfl, rfl⟩
  | tick => cases h
  | publish => cases h
  | dispatch => cases h
  | yield => cases h
  | sleep chan => cases h
  | wakeup => cases h
  | exit status => cases h
  | _ =>
    have h : q.state = .unused := h
    rw [h] at hg
    cases hg

theorem Clean.setProc (hc : Clean p t) {p' : ProcId} {q : Proc}
    (hq : p' = p → q.state = .unused → Blank q) : Clean p (t.setProc p' q) where
  blank h := by
    by_cases hp : p = p'
    · subst hp
      simp only [ProcTable.setProc, update_self] at h ⊢
      exact hq rfl h
    · simp only [ProcTable.setProc, update_of_ne hp] at h ⊢
      exact hc.blank h
  disk := hc.disk

/-- A change of all slots that leaves the blank ones as they are. -/
theorem Clean.map (hc : Clean p t) {f : Proc → Proc}
    (hf : (f (t.procs p)).state = .unused → (t.procs p).state = .unused ∧
      (Blank (t.procs p) → Blank (f (t.procs p)))) :
    Clean p { t with procs := fun p' => f (t.procs p') } where
  blank h := (hf h).2 (hc.blank (hf h).1)
  disk := hc.disk

/-- A step that does not disturb the slot keeps it clean. -/
theorem Clean.step (hc : Clean p t) (hu : Undisturbed p t a) (h : Step t a t') : Clean p t' := by
  cases h with
  | alloc hp => exact ⟨(hc.setProc fun _ h => by cases h).blank, hc.disk⟩
  | slot hg => exact hc.setProc fun _ h => blank_apply hg h
  | @kkill pid p' hp =>
    refine hc.setProc fun hpp h => ?_
    subst hpp
    -- the slot is in use, and a kill does not end that
    have hne := hu hp
    have h : (if (t.procs p').state = .sleeping then .runnable else (t.procs p').state) =
      ProcState.unused := h
    split at h
    · cases h
    · exact absurd h hne
  | kkillNone hp => exact hc
  | @reparent p' init =>
    refine hc.map (f := fun q => q.reparent p' init) fun h => ?_
    have hst : ((t.procs p).reparent p' init).state = (t.procs p).state := by
      unfold Proc.reparent
      split <;> rfl
    refine ⟨hst.symm.trans h, fun hb => ?_⟩
    have hkeep : (t.procs p).reparent p' init = t.procs p := if_neg (by simp [hb.parent])
    rw [hkeep]
    exact hb
  | boost =>
    refine hc.map (f := Proc.boost) fun h => ?_
    have hst : (t.procs p).state = .unused := Proc.boost_state.symm.trans h
    refine ⟨hst, fun hb => ?_⟩
    have hkeep : (t.procs p).boost = t.procs p := if_neg (by simp [hst])
    rw [hkeep]
    exact hb
  | @paging p' c =>
    refine hc.setProc fun hpp h => ?_
    subst hpp
    have hb := hc.blank h
    exact ⟨hb.killed, hb.chan, hb.xstate, hb.parent, hb.sz⟩
  | @diskRequest p' write latency hp =>
    refine ⟨hc.blank, ?_⟩
    exact (update_of_ne (Ne.symm hu) _ _).trans hc.disk

/-- A process in a clean slot starts from zero. -/
theorem Clean.observe_alloc (hc : Clean p t) (h : Step t (.alloc p) t') :
    t'.observe p = Observed.zero := by
  cases h with
  | alloc hp =>
    have hu : (t.procs p).state = .unused := by simpa using firstIdx_holds hp
    obtain ⟨hk, hch, hx, hpar, hsz⟩ := hc.blank hu
    simp [observe, ProcTable.setProc, Proc.claim, Proc.vmCounters, Observed.zero, hk, hch, hx, hpar,
      hsz, hc.disk]

/-- **A recycled slot carries nothing over**, after any two histories in which no kill hit the slot
while it was not in use and no process in it made a disk request: `allocproc` returns the same process,
and it starts from zero. -/
theorem recycled_slot_undisturbed {as as' : List TableAct} {s s' : ProcTable}
    (h : Run (Guarded Step (Undisturbed p)) boot as t)
    (h' : Run (Guarded Step (Undisturbed p)) boot as' s) (ha : Step t (.alloc p) t')
    (ha' : Step s (.alloc p) s') :
    t'.observe p = s'.observe p ∧ t'.observe p = Observed.zero := by
  have hclean : ∀ {as t}, Run (Guarded Step (Undisturbed p)) boot as t → Clean p t := fun h =>
    h.invariant ⟨fun _ => ⟨rfl, rfl, rfl, rfl, rfl⟩, rfl⟩ fun _ _ _ hc hs => hc.step hs.1 hs.2
  have ht := (hclean h).observe_alloc ha
  have hs := (hclean h').observe_alloc ha'
  exact ⟨ht.trans hs.symm, ht⟩

/-- A step, computed. -/
def exec (t : ProcTable) : TableAct → Option ProcTable
  | .alloc p =>
    if t.firstUnused = some p then
      some { t.setProc p ((t.procs p).claim t.nextpid) with nextpid := t.nextpid + 1 }
    else none
  | .slot p act =>
    if act.guard (t.procs p).state then some (t.setProc p (act.apply (t.procs p))) else none
  | .kkill pid => some ((t.firstPid pid).elim t fun p => t.setProc p (t.procs p).kill)
  | .reparent p init => some { t with procs := fun p' => (t.procs p').reparent p init }
  | .boost => some { t with procs := fun p => (t.procs p).boost }
  | .paging p c => some (t.setProc p ((t.procs p).setVmCounters c))
  | .diskRequest p write latency =>
    if (t.procs p).state = .running then
      some { t with disk := update t.disk p (DiskStats.request (t.disk p) write latency) }
    else none

theorem step_of_exec (h : t.exec a = some t') : Step t a t' := by
  cases a with dsimp only [exec] at h
  | alloc | slot | diskRequest =>
    obtain ⟨hg, h⟩ := Option.ite_none_right_eq_some.mp h
    cases h
    constructor
    exact hg
  | kkill pid =>
    cases h
    cases hp : t.firstPid pid with
    | none => exact .kkillNone hp
    | some p => exact .kkill hp
  | reparent | boost | paging =>
    cases h
    constructor

/-- init waits in slot 0, and a process runs in slot 1. -/
def twoProcs : List TableAct :=
  [.alloc 0, .slot 0 .publish, .alloc 1, .slot 1 .publish, .slot 1 .dispatch]

/-- After `kill(0)` the next process starts killed; and a process in a slot whose earlier occupant
wrote to the swap disk starts with the count of that write. Without the kill, and without the write,
it starts from zero. -/
theorem recycled_slot_fails :
    (∃ t s, Run Step boot (twoProcs ++ [.kkill 0, .alloc 2]) t ∧ Run Step boot (twoProcs ++ [.alloc 2]) s ∧
      (t.observe 2).killed = 1 ∧ (s.observe 2).killed = 0) ∧
    ∃ t s, Run Step boot (twoProcs ++ [.diskRequest 1 true 4, .slot 1 (.exit 0), .slot 1 .free, .alloc 1]) t ∧
      Run Step boot (twoProcs ++ [.slot 1 (.exit 0), .slot 1 .free, .alloc 1]) s ∧
      (t.observe 1).disk.diskWrites = 1 ∧ (s.observe 1).disk.diskWrites = 0 := by
  have reach (as : List TableAct) {P : ProcTable → Prop} [DecidablePred P]
      (h : (as.foldlM exec boot).any fun t => P t) : ∃ t, Run Step boot as t ∧ P t := by
    obtain ⟨t, hrun, ht⟩ := Run.of_exec h fun _ _ _ => step_of_exec
    exact ⟨t, hrun, of_decide_eq_true ht⟩
  constructor
  · obtain ⟨t, hrun, ht⟩ := reach (twoProcs ++ [.kkill 0, .alloc 2])
      (P := fun t => (t.observe 2).killed = 1) (by decide +kernel)
    obtain ⟨s, hrun', hs⟩ := reach (twoProcs ++ [.alloc 2])
      (P := fun t => (t.observe 2).killed = 0) (by decide +kernel)
    exact ⟨t, s, hrun, hrun', ht, hs⟩
  · obtain ⟨t, hrun, ht⟩ := reach (twoProcs ++ [.diskRequest 1 true 4, .slot 1 (.exit 0), .slot 1 .free, .alloc 1])
      (P := fun t => (t.observe 1).disk.diskWrites = 1) (by decide +kernel)
    obtain ⟨s, hrun', hs⟩ := reach (twoProcs ++ [.slot 1 (.exit 0), .slot 1 .free, .alloc 1])
      (P := fun t => (t.observe 1).disk.diskWrites = 0) (by decide +kernel)
    exact ⟨t, s, hrun, hrun', ht, hs⟩

/-- A slot whose process was killed and exited, against a slot never used. -/
theorem recycled_slot_undisturbed_killed : ∃ t t' s s',
    Run Step boot (twoProcs ++ [.kkill 2, .slot 1 (.exit (-1)), .slot 1 .free]) t ∧ Step t (.alloc 1) t' ∧
      Run Step boot [.alloc 0] s ∧ Step s (.alloc 1) s' ∧ t'.observe 1 = s'.observe 1 := by
  have hstep (t : ProcTable) (a t') (h : (if Undisturbed 1 t a then t.exec a else none) = some t') :
      Guarded Step (Undisturbed 1) t a t' :=
    (Option.ite_none_right_eq_some.mp h).imp_right step_of_exec
  have hexec : ((twoProcs ++ [TableAct.kkill 2, .slot 1 (.exit (-1)), .slot 1 .free]).foldlM
      (fun (t : ProcTable) a => if Undisturbed 1 t a then t.exec a else none) boot).any fun t =>
        t.firstUnused = some 1 := by
    decide +kernel
  have hexec' : ([TableAct.alloc 0].foldlM (fun (t : ProcTable) a => if Undisturbed 1 t a then t.exec a else none)
      boot).any fun t => t.firstUnused = some 1 := by
    decide +kernel
  obtain ⟨t, hrun, ht⟩ := Run.of_exec hexec hstep
  obtain ⟨s, hrun', hs⟩ := Run.of_exec hexec' hstep
  have ha : Step t (.alloc 1) _ := .alloc (of_decide_eq_true ht)
  have ha' : Step s (.alloc 1) _ := .alloc (of_decide_eq_true hs)
  exact ⟨t, _, s, _, hrun.of_guarded, ha, hrun'.of_guarded, ha', (recycled_slot_undisturbed hrun hrun' ha ha').1⟩

end ProcTable

end Xv6
