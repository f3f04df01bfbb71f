import Xv6.Proc.Recycle

/-!
# The life of a process

`kfork`, `kexit` and `kwait` (`kernel/proc.c`) by any processes, interleaved at the granularity of
`wait_lock`: `kfork` takes a slot, later links the child to its parent, and later makes it RUNNABLE;
the rest of `kexit` under `wait_lock` is one step, and so is each pass of `kwait` over the table.

A process does nothing else while it is inside `kfork`, so its child has a parent that is alive.
-/

namespace Xv6

open Transition Function

/-- A process that is inside `kfork`: the slot of its child, and whether it has set `np->parent`. -/
structure Forking where
  child : ProcId
  linked : Bool
  deriving DecidableEq

structure Life where
  procs : ProcId → Proc
  nextpid : Int32
  forking : ProcId → Option Forking

/-- How a pass of `kwait` over the table ends. -/
inductive WaitOutcome where
  | reaped (c : ProcId) (pid status : Int32)   -- returns `pid`, after copying `status` out
  | copyFailed (c : ProcId)                    -- returns -1
  | gaveUp                                     -- returns -1
  | asleep
  deriving DecidableEq

inductive LifeAct where
  | fork (p c : ProcId)
  | forkFail (p c : ProcId)
  | link (p c : ProcId)
  | publish (p c : ProcId)
  | exit (p : ProcId) (pid status : Int32)
  | wait (p : ProcId) (out : WaitOutcome)
  | slot (p : ProcId) (act : SlotAct)
  | kkill (pid : Int32)
  deriving DecidableEq

/-- What a process does between the calls modelled here, and what is done to it. -/
def SlotAct.inner : SlotAct → Bool
  | .free | .inherit _ | .adopt _ | .publish | .exit _ => false
  | _ => true

namespace Life

variable (s : Life)

def setProc (p : ProcId) (q : Proc) : Life := { s with procs := update s.procs p q }

def setForking (p : ProcId) (f : Option Forking) : Life :=
  { s with forking := update s.forking p f }

@[simp] theorem setProc_self {p : ProcId} {q : Proc} : (s.setProc p q).procs p = q :=
  update_self ..

theorem setProc_of_ne {p c : ProcId} {q : Proc} (h : c ≠ p) :
    (s.setProc p q).procs c = s.procs c := update_of_ne h ..

@[simp] theorem setForking_self {p : ProcId} {f : Option Forking} :
    (s.setForking p f).forking p = f := update_self ..

theorem setForking_of_ne {p c : ProcId} {f : Option Forking} (h : c ≠ p) :
    (s.setForking p f).forking c = s.forking c := update_of_ne h ..

/-- The first exited child of `p`, in the order of the scan of `kwait`. -/
def exitedChild (p : ProcId) : Option ProcId :=
  firstIdx fun c => (s.procs c).parent == some p && (s.procs c).state == .zombie

/-- One pass of `kwait`. `copies` says that there is no address to copy the status to, or that
`copyout` succeeds. -/
def kwaitPass (p : ProcId) (copies : Bool) : Life × WaitOutcome :=
  match s.exitedChild p with
  | some c =>
    let q := s.procs c
    if copies then (s.setProc c { q.release with trapframe := 0 }, .reaped c q.pid q.xstate)
    else (s, .copyFailed c)
  | none =>
    if (∀ c, (s.procs c).parent ≠ some p) ∨ (s.procs p).killed ≠ 0 then (s, .gaveUp)
    else (s.setProc p ((s.procs p).sleep p), .asleep)

/-- `kexit` under `wait_lock`: `reparent`, and the process becomes a ZOMBIE. -/
def kexit (init p : ProcId) (status : Int32) : Life :=
  let reparented : Life := { s with procs := fun c => (s.procs c).reparent p init }
  reparented.setProc p ((reparented.procs p).exit status)

variable (init : ProcId)

inductive Step : Life → LifeAct → Life → Prop
  -- `allocproc` holds one `p->lock` at a time, so the slot need not be the first one that is UNUSED
  | fork {s : Life} {p c : ProcId} (hp : (s.procs p).state = .running) (hf : s.forking p = none)
      (hc : (s.procs c).state = .unused) :
      Step s (.fork p c)
        { (s.setProc c ((s.procs c).claim s.nextpid)).setForking p (some ⟨c, false⟩) with
          nextpid := s.nextpid + 1 }
  -- `allocproc` or `uvmcopy` runs out of memory
  | forkFail {s : Life} {p c : ProcId} (hp : (s.procs p).state = .running)
      (hf : s.forking p = some ⟨c, false⟩) :
      Step s (.forkFail p c)
        ((s.setProc c { (s.procs c).release with trapframe := 0 }).setForking p none)
  | link {s : Life} {p c : ProcId} (hp : (s.procs p).state = .running)
      (hf : s.forking p = some ⟨c, false⟩) :
      Step s (.link p c)
        ((s.setProc c { s.procs c with parent := some p }).setForking p (some ⟨c, true⟩))
  | publish {s : Life} {p c : ProcId} (hp : (s.procs p).state = .running)
      (hf : s.forking p = some ⟨c, true⟩) :
      Step s (.publish p c) ((s.setProc c (s.procs c).ready).setForking p none)
  -- `kexit` panics for init
  | exit {s : Life} {p : ProcId} {status : Int32} (hp : (s.procs p).state = .running)
      (hf : s.forking p = none) (hne : p ≠ init) :
      Step s (.exit p (s.procs p).pid status) (s.kexit init p status)
  | wait {s : Life} {p : ProcId} {copies : Bool} (hp : (s.procs p).state = .running)
      (hf : s.forking p = none) : Step s (.wait p (s.kwaitPass p copies).2) (s.kwaitPass p copies).1
  | slot {s : Life} {p : ProcId} {act : SlotAct} (hi : act.inner) (hg : act.guard (s.procs p).state) :
      Step s (.slot p act) (s.setProc p (act.apply (s.procs p)))
  | kkill {s : Life} {pid : Int32} {p : ProcId}
      (hp : firstIdx (fun p => (s.procs p).pid == pid) = some p) :
      Step s (.kkill pid) (s.setProc p (s.procs p).kill)
  | kkillNone {s : Life} {pid : Int32}
      (hp : firstIdx (fun p => (s.procs p).pid == pid) = none) : Step s (.kkill pid) s

/-- After `userinit`, in the slot `init`. -/
def boot : Life where
  procs := update (fun _ => Proc.fresh) init (Proc.fresh.claim 1).ready
  nextpid := 2
  forking _ := none

end Life

/-! ## Parents -/

/-- A process that exists and has not exited. -/
def ProcState.Live (st : ProcState) : Prop := st = .sleeping ∨ st = .runnable ∨ st = .running

instance (st : ProcState) : Decidable st.Live := inferInstanceAs (Decidable (_ ∨ _))

/-- The same state, or both alive. -/
def ProcState.Alike (st st' : ProcState) : Prop := st = st' ∨ st.Live ∧ st'.Live

namespace ProcState.Alike

variable {st st' : ProcState}

theorem live (h : Alike st st') (hl : st.Live) : st'.Live := by
  rcases h with rfl | h
  · exact hl
  · exact h.2

theorem eq_of_not_live (h : Alike st st') (hl : ¬ st'.Live) : st = st' := by
  rcases h with h | h
  · exact h
  · exact absurd h.2 hl

end ProcState.Alike

namespace Life

variable {init : ProcId} {s s' : Life} {a : LifeAct}

/-- Slot `c`, and the process that is creating the one in it, if there is one. -/
structure SlotOk (init : ProcId) (s : Life) (c : ProcId) : Prop where
  forker : ∀ {p b}, s.forking p = some ⟨c, b⟩ → (s.procs p).state.Live ∧ (s.procs c).state = .used ∧
    (s.procs c).parent = if b then some p else none
  forker_unique : ∀ {p p' b b'}, s.forking p = some ⟨c, b⟩ → s.forking p' = some ⟨c, b'⟩ → p = p'
  used : (s.procs c).state = .used → ∃ p b, s.forking p = some ⟨c, b⟩
  unused : (s.procs c).state = .unused → (s.procs c).parent = none
  parent : c ≠ init → (s.procs c).state.Live ∨ (s.procs c).state = .zombie →
    ∃ w, (s.procs c).parent = some w ∧ (s.procs w).state.Live

/-- The table at the granularity of `wait_lock`. -/
structure Ok (init : ProcId) (s : Life) : Prop where
  init_live : (s.procs init).state.Live
  slot : ∀ c, SlotOk init s c

/-- After `userinit` there is only init. -/
theorem boot_ok (init : ProcId) : Ok init (boot init) where
  init_live := by simp [boot, Proc.ready, ProcState.Live]
  slot c := by
    have hidle {p b} : (boot init).forking p ≠ some ⟨c, b⟩ := (Option.some_ne_none _).symm
    refine ⟨fun h => absurd h hidle, fun h => absurd h hidle, fun h => ?_, fun _ => ?_,
      fun hc h => ?_⟩ <;> by_cases hc : c = init
    all_goals simp_all [boot, Proc.ready, Proc.claim, Proc.fresh, ProcState.Live]

/-- A slot with the same creator, whose process is still alive if it was, with the same parent. -/
theorem SlotOk.congr {c : ProcId} (h : SlotOk init s c)
    (hlive : ∀ {w}, (s.procs w).state.Live → (s'.procs w).state.Live)
    (hf : ∀ p b, s'.forking p = some ⟨c, b⟩ ↔ s.forking p = some ⟨c, b⟩)
    (hst : ProcState.Alike (s.procs c).state (s'.procs c).state)
    (hpar : (s'.procs c).parent = (s.procs c).parent) : SlotOk init s' c where
  forker {p b} hp := by
    obtain ⟨hl, hu, hpar'⟩ := h.forker ((hf p b).mp hp)
    refine ⟨hlive hl, ?_, hpar.trans hpar'⟩
    rcases hst with he | ⟨hlive, _⟩
    · exact he.symm.trans hu
    · rw [hu] at hlive
      exact absurd hlive (by decide)
  forker_unique hp hp' := h.forker_unique ((hf _ _).mp hp) ((hf _ _).mp hp')
  used hu := by
    obtain ⟨p, b, hp⟩ := h.used ((hst.eq_of_not_live (by rw [hu]; decide)).trans hu)
    exact ⟨p, b, (hf p b).mpr hp⟩
  unused hu := hpar.trans (h.unused ((hst.eq_of_not_live (by rw [hu]; decide)).trans hu))
  parent hc hl := by
    have hl' : (s.procs c).state.Live ∨ (s.procs c).state = .zombie := by
      rcases hst with he | ⟨hlive, _⟩
      · rwa [he]
      · exact .inl hlive
    obtain ⟨w, hw, hwl⟩ := h.parent hc hl'
    exact ⟨w, hpar.trans hw, hlive hwl⟩

/-- A slot whose process is not alive changes hands. -/
theorem Ok.replace (hs : Ok init s) {c : ProcId} {q : Proc} (hdead : ¬ (s.procs c).state.Live)
    (hprocs : s'.procs = (s.setProc c q).procs)
    (hfork : ∀ p c' b, c' ≠ c → (s'.forking p = some ⟨c', b⟩ ↔ s.forking p = some ⟨c', b⟩))
    (hc : (∀ {w}, (s.procs w).state.Live → (s'.procs w).state.Live) → s'.procs c = q → SlotOk init s' c) :
    Ok init s' := by
  have keep : ∀ {w}, w ≠ c → s'.procs w = s.procs w := fun h => by
    rw [hprocs]
    exact setProc_of_ne s h
  have hlive : ∀ {w}, (s.procs w).state.Live → (s'.procs w).state.Live := fun {w} hl => by
    rwa [keep fun he => hdead (he ▸ hl)]
  refine ⟨hlive hs.init_live, fun c' => ?_⟩
  by_cases hcc : c' = c
  · subst hcc
    exact hc hlive (by rw [hprocs]; exact setProc_self s)
  · exact (hs.slot c').congr hlive (fun p b => hfork p c' b hcc) (.inl (by rw [keep hcc])) (by rw [keep hcc])

/-- A slot whose state stays alike, with the same parent. -/
theorem Ok.setProc (hs : Ok init s) {p : ProcId} {q : Proc}
    (hst : ProcState.Alike (s.procs p).state q.state) (hpar : q.parent = (s.procs p).parent) :
    Ok init (s.setProc p q) := by
  have h : ∀ c, ProcState.Alike (s.procs c).state ((s.setProc p q).procs c).state ∧
      ((s.setProc p q).procs c).parent = (s.procs c).parent := by
    intro c
    by_cases hc : c = p
    · subst hc
      rw [setProc_self]
      exact ⟨hst, hpar⟩
    · rw [setProc_of_ne s hc]
      exact ⟨.inl rfl, rfl⟩
  exact ⟨(h init).1.live hs.init_live, fun c =>
    (hs.slot c).congr (fun {w} => (h w).1.live) (fun _ _ => Iff.rfl) (h c).1 (h c).2⟩

/-- What a process inside `kfork` does to the slot of its child: the child stays in creation, with
the parent link it has; or it leaves, as an empty slot or as a process with a parent. -/
inductive ForkResult (p c : ProcId) (q : Proc) : Option Forking → Prop
  | creating {b : Bool} (hst : q.state = .used) (hpar : q.parent = if b then some p else none) :
      ForkResult p c q (some ⟨c, b⟩)
  | failed (hst : q.state = .unused) (hpar : q.parent = none) : ForkResult p c q none
  | created (hst : q.state.Live) (hpar : q.parent = some p) : ForkResult p c q none

/-- A step of `kfork` by `p` on the slot `c`, which no other process is creating. -/
theorem Ok.forkStep (hs : Ok init s) {p c : ProcId} {q : Proc} {f : Option Forking}
    (hp : (s.procs p).state.Live) (hc : (s.procs c).state = .unused ∨ (s.procs c).state = .used)
    (hold : ∀ f', s.forking p = some f' → f'.child = c)
    (hother : ∀ p' b, p' ≠ p → s.forking p' ≠ some ⟨c, b⟩)
    (hres : ForkResult p c q f) (hprocs : s'.procs = (s.setProc c q).procs)
    (hfork : s'.forking = (s.setForking p f).forking) : Ok init s' := by
  have forks : ∀ {p'}, p' ≠ p → s'.forking p' = s.forking p' := fun h => by
    rw [hfork]
    exact setForking_of_ne s h
  have mine : s'.forking p = f := by
    rw [hfork]
    exact setForking_self s
  refine hs.replace (c := c) (q := q) ?_ hprocs ?_ ?_
  · rcases hc with hc | hc <;> rw [hc] <;> decide
  · -- `p` creates `c` or nothing, before and after
    intro p' c' b hne
    by_cases hpp : p' = p
    · subst hpp
      refine iff_of_false (fun h => ?_) fun h => hne (hold _ h)
      rw [mine] at h
      subst h
      cases hres
      exact hne rfl
    · rw [forks hpp]
  · intro hlive hself
    -- a creator of `c` is `p`
    have hmine : ∀ {p' b}, s'.forking p' = some ⟨c, b⟩ → p' = p ∧ f = some ⟨c, b⟩ := by
      intro p' b hf
      by_cases hpp : p' = p
      · subst hpp
        exact ⟨rfl, mine.symm.trans hf⟩
      · rw [forks hpp] at hf
        exact absurd hf (hother p' b hpp)
    refine ⟨fun hf => ?_, fun hf hf' => (hmine hf).1.trans (hmine hf').1.symm, fun hu => ?_, ?_, fun _ => ?_⟩
    · obtain ⟨rfl, rfl⟩ := hmine hf
      cases hres with
      | creating hst hpar =>
        rw [hself]
        exact ⟨hlive hp, hst, hpar⟩
    · rw [hself] at hu
      cases hres with
      | creating hst hpar => exact ⟨p, _, mine⟩
      | failed hst hpar =>
        rw [hst] at hu
        cases hu
      | created hst hpar =>
        rw [hu] at hst
        exact absurd hst (by decide)
    all_goals
      rw [hself]
      cases hres with
      | creating hst hpar => simp [hst, ProcState.Live]
      | failed hst hpar => simp [hst, hpar, ProcState.Live]
      | created hst hpar => rcases hst with hst | hst | hst <;> simp [hst, hpar, hlive hp]

theorem running_live {q : Proc} (h : q.state = .running) : q.state.Live := .inr (.inr h)

theorem reparent_state (q : Proc) (p init : ProcId) : (q.reparent p init).state = q.state := by
  unfold Proc.reparent
  split <;> rfl

theorem reparent_pid (q : Proc) (p init : ProcId) : (q.reparent p init).pid = q.pid := by
  unfold Proc.reparent
  split <;> rfl

theorem reparent_xstate (q : Proc) (p init : ProcId) : (q.reparent p init).xstate = q.xstate := by
  unfold Proc.reparent
  split <;> rfl

/-- The parent after `reparent`. -/
theorem reparent_parent (q : Proc) (p init : ProcId) :
    (q.reparent p init).parent = if q.parent = some p then some init else q.parent := by
  unfold Proc.reparent
  split <;> rfl

theorem kexit_of_ne {p c : ProcId} {status : Int32} (h : c ≠ p) :
    (s.kexit init p status).procs c = (s.procs c).reparent p init := setProc_of_ne _ h

theorem kexit_self {p : ProcId} {status : Int32} :
    (s.kexit init p status).procs p = ((s.procs p).reparent p init).exit status := setProc_self _

/-- After `kexit` each process has the parent that `reparent` gave it. -/
theorem kexit_parent (p c : ProcId) (status : Int32) :
    ((s.kexit init p status).procs c).parent =
      if (s.procs c).parent = some p then some init else (s.procs c).parent := by
  by_cases h : c = p
  · subst h
    rw [kexit_self]
    exact reparent_parent ..
  · rw [kexit_of_ne h]
    exact reparent_parent ..

theorem kexit_state_of_ne {p c : ProcId} {status : Int32} (h : c ≠ p) :
    ((s.kexit init p status).procs c).state = (s.procs c).state := by
  rw [kexit_of_ne h]
  exact reparent_state ..

theorem kexit_state_self {p : ProcId} {status : Int32} :
    ((s.kexit init p status).procs p).state = .zombie := by
  rw [kexit_self]
  rfl

/-- `kexit` leaves the children to init. -/
theorem Ok.kexit (hs : Ok init s) {p : ProcId} (status : Int32) (hp : (s.procs p).state = .running)
    (hf : s.forking p = none) (hne : p ≠ init) : Ok init (s.kexit init p status) := by
  have notself : ∀ {c}, ((s.kexit init p status).procs c).state ≠ .zombie → c ≠ p := by
    rintro c h rfl
    exact h kexit_state_self
  refine ⟨?_, fun c => ⟨?_, (hs.slot c).forker_unique, ?_, ?_, ?_⟩⟩
  · rw [kexit_state_of_ne (Ne.symm hne)]
    exact hs.init_live
  · intro p' b hf'
    have hpp : p' ≠ p := by
      rintro rfl
      rw [show (s.kexit init p' status).forking p' = s.forking p' from rfl, hf] at hf'
      cases hf'
    obtain ⟨hl, hu, hpar⟩ := (hs.slot c).forker hf'
    have hcp : c ≠ p := by
      rintro rfl
      rw [hp] at hu
      cases hu
    rw [kexit_state_of_ne hpp, kexit_state_of_ne hcp, kexit_parent, hpar]
    refine ⟨hl, hu, ?_⟩
    cases b with
    | true => simp [hpp]
    | false => simp
  · intro hu
    have hcp := notself (c := c) (by simp [hu])
    rw [kexit_state_of_ne hcp] at hu
    exact (hs.slot c).used hu
  · intro hu
    have hcp := notself (c := c) (by simp [hu])
    rw [kexit_state_of_ne hcp] at hu
    rw [kexit_parent, (hs.slot c).unused hu]
    simp
  · intro hc hl
    have hold : (s.procs c).state.Live ∨ (s.procs c).state = .zombie := by
      by_cases hcp : c = p
      · subst hcp
        exact .inl (running_live hp)
      · rwa [kexit_state_of_ne hcp] at hl
    obtain ⟨w, hw, hwl⟩ := (hs.slot c).parent hc hold
    rw [kexit_parent, hw]
    -- the children of `p` go to init; the others keep a parent other than `p`
    by_cases hwp : w = p
    · subst hwp
      exact ⟨init, by simp, by rw [kexit_state_of_ne (Ne.symm hne)]; exact hs.init_live⟩
    · exact ⟨w, by simp [hwp], by rw [kexit_state_of_ne hwp]; exact hwl⟩

/-- Reaping a ZOMBIE: nobody alive has it as a parent. -/
theorem Ok.reap (hs : Ok init s) {c : ProcId} {q : Proc} (hc : (s.procs c).state = .zombie)
    (hst : q.state = .unused) (hpar : q.parent = none) : Ok init (s.setProc c q) := by
  refine hs.replace (by rw [hc]; decide) rfl (fun _ _ _ _ => Iff.rfl) fun _ hself => ?_
  have hnone : ∀ {p b}, (s.setProc c q).forking p ≠ some ⟨c, b⟩ := by
    intro p b hf
    have hu := ((hs.slot c).forker hf).2.1
    rw [hc] at hu
    cases hu
  refine ⟨fun hf => absurd hf hnone, fun hf => absurd hf hnone, fun hu => ?_, fun _ => ?_, fun _ hl => ?_⟩
  · rw [hself, hst] at hu
    cases hu
  · rw [hself]
    exact hpar
  · rw [hself, hst] at hl
    exact absurd hl (by decide)

/-- What a process does in between neither ends it nor changes its parent. -/
theorem inner_apply {act : SlotAct} {q : Proc} (hi : act.inner) (hg : act.guard q.state) :
    q.state.Live ∧ (act.apply q).state.Live ∧ (act.apply q).parent = q.parent := by
  cases act with
  | free => cases hi
  | inherit sz => cases hi
  | adopt parent => cases hi
  | publish => cases hi
  | exit status => cases hi
  | dispatch => exact ⟨.inr (.inl (by simpa [SlotAct.guard] using hg)), .inr (.inr rfl), rfl⟩
  | wakeup => exact ⟨.inl (by simpa [SlotAct.guard] using hg), .inr (.inl rfl), rfl⟩
  | tick =>
    have hr : q.state = .running := by simpa [SlotAct.guard] using hg
    refine ⟨running_live hr, .inr (.inl rfl), ?_⟩
    show q.tick.parent = q.parent
    unfold Proc.tick
    dsimp only
    split <;> rfl
  | yield => exact ⟨running_live (by simpa [SlotAct.guard] using hg), .inr (.inl rfl), rfl⟩
  | sleep chan => exact ⟨running_live (by simpa [SlotAct.guard] using hg), .inl rfl, rfl⟩
  | _ =>
    have hl : q.state.Live := running_live (by simpa [SlotAct.guard] using hg)
    exact ⟨hl, hl, rfl⟩

theorem kill_alike (q : Proc) : ProcState.Alike q.state q.kill.state := by
  by_cases h : q.state = .sleeping
  · exact .inr ⟨.inl h, by simp [Proc.kill, h, ProcState.Live]⟩
  · exact .inl (by simp [Proc.kill, h])

/-- `kwait` finds a zombie that is a child of the caller. -/
theorem exitedChild_spec {p c : ProcId} (h : s.exitedChild p = some c) :
    (s.procs c).parent = some p ∧ (s.procs c).state = .zombie := by
  simpa using firstIdx_holds h

/-- The ends of a pass of `kwait`. -/
theorem kwaitPass_cases (p : ProcId) (copies : Bool) :
    (∃ c, s.exitedChild p = some c ∧ s.kwaitPass p copies =
      (s.setProc c { (s.procs c).release with trapframe := 0 },
        .reaped c (s.procs c).pid (s.procs c).xstate)) ∨
    (∃ c, s.exitedChild p = some c ∧ s.kwaitPass p copies = (s, .copyFailed c)) ∨
    s.kwaitPass p copies = (s, .gaveUp) ∨
    s.kwaitPass p copies = (s.setProc p ((s.procs p).sleep p), .asleep) := by
  unfold kwaitPass
  cases h : s.exitedChild p with
  | some c =>
    cases copies with
    | true => exact .inl ⟨c, rfl, rfl⟩
    | false => exact .inr (.inl ⟨c, rfl, rfl⟩)
  | none =>
    dsimp only
    split
    · exact .inr (.inr (.inl rfl))
    · exact .inr (.inr (.inr rfl))

/-- Every step keeps the table. -/
theorem Ok.step (hs : Ok init s) (h : Step init s a s') : Ok init s' := by
  cases h with
  | @fork p c hp hf hc =>
    refine hs.forkStep (q := (s.procs c).claim s.nextpid) (running_live hp) (.inl hc) (by simp [hf])
      (fun p' b _ hf' => ?_) (.creating (b := false) rfl ((hs.slot c).unused hc)) rfl rfl
    have hused := ((hs.slot c).forker hf').2.1
    rw [hc] at hused
    cases hused
  | @forkFail p c hp hf =>
    exact hs.forkStep (running_live hp) (.inr ((hs.slot c).forker hf).2.1) (by simp [hf])
      (fun _ _ hne hf' => hne ((hs.slot c).forker_unique hf' hf)) (.failed rfl rfl) rfl rfl
  | @link p c hp hf =>
    have hu := ((hs.slot c).forker hf).2.1
    exact hs.forkStep (q := { s.procs c with parent := some p }) (running_live hp) (.inr hu) (by simp [hf])
      (fun _ _ hne hf' => hne ((hs.slot c).forker_unique hf' hf)) (.creating (b := true) hu rfl) rfl rfl
  | @publish p c hp hf =>
    obtain ⟨-, hu, hpar⟩ := (hs.slot c).forker hf
    exact hs.forkStep (q := (s.procs c).ready) (running_live hp) (.inr hu) (by simp [hf])
      (fun _ _ hne hf' => hne ((hs.slot c).forker_unique hf' hf)) (.created (.inr (.inl rfl)) hpar) rfl rfl
  | exit hp hf hne => exact hs.kexit _ hp hf hne
  | @wait p copies hp hf =>
    rcases s.kwaitPass_cases p copies with ⟨c, hc, he⟩ | ⟨c, hc, he⟩ | he | he
    · rw [he]
      exact hs.reap (exitedChild_spec hc).2 rfl rfl
    · rw [he]
      exact hs
    · rw [he]
      exact hs
    · rw [he]
      exact hs.setProc (.inr ⟨running_live hp, .inl rfl⟩) rfl
  | slot hi hg =>
    obtain ⟨hl, hl', hpar⟩ := inner_apply hi hg
    exact hs.setProc (.inr ⟨hl, hl'⟩) hpar
  | kkill hp => exact hs.setProc (kill_alike _) rfl
  | kkillNone hp => exact hs

/-! ## Exits and waits -/

/-- The pid and the exit status that a ZOMBIE keeps for its parent. -/
def outstanding (s : Life) (c : ProcId) : Option (Int32 × Int32) :=
  if (s.procs c).state = .zombie then some ((s.procs c).pid, (s.procs c).xstate) else none

end Life

/-- The action ends, or reaps, the process in slot `c`. -/
def LifeAct.About (c : ProcId) : LifeAct → Prop
  | .exit p _ _ => p = c
  | .wait _ (.reaped c' _ _) => c' = c
  | _ => False

/-- **Each exit is answered by one wait**: along the actions, each process that exits from slot `c` is
reaped exactly once, with its pid and its exit status, before the next one exits from that slot; the
last argument is the pid and the status of the process that is still to be reaped. -/
inductive Reaped (c : ProcId) : List LifeAct → Option (Int32 × Int32) → Prop
  | nil : Reaped c [] none
  | exit {as : List LifeAct} {pid status : Int32} :
      Reaped c as none → Reaped c (as ++ [.exit c pid status]) (some (pid, status))
  | wait {as : List LifeAct} {w : ProcId} {pid status : Int32} :
      Reaped c as (some (pid, status)) → Reaped c (as ++ [.wait w (.reaped c pid status)]) none
  | other {as : List LifeAct} {a : LifeAct} {o : Option (Int32 × Int32)} :
      Reaped c as o → ¬ a.About c → Reaped c (as ++ [a]) o

/-- Who has to wait for the process in slot `c`: the process that forked it, or init after that
process exited. -/
def guardian (init c : ProcId) (g : Option ProcId) : LifeAct → Option ProcId
  | .link p c' => if c' = c then some p else g
  | .exit p _ _ => if g = some p then some init else g
  | .wait _ (.reaped c' _ _) => if c' = c then none else g
  | _ => g

namespace Life

variable {init : ProcId} {s s' : Life} {a : LifeAct}

theorem outstanding_of_not_zombie {c : ProcId} (h : (s.procs c).state ≠ .zombie) :
    s.outstanding c = none := if_neg h

/-- A change of a process that is no ZOMBIE, before and after. -/
theorem outstanding_setProc {p c : ProcId} {q : Proc} (hp : (s.procs p).state ≠ .zombie)
    (hq : q.state ≠ .zombie) : (s.setProc p q).outstanding c = s.outstanding c := by
  unfold outstanding
  by_cases h : c = p
  · subst h
    rw [setProc_self, if_neg hp, if_neg hq]
  · rw [setProc_of_ne s h]

theorem live_ne_zombie {st : ProcState} (h : st.Live) : st ≠ .zombie := by
  rintro rfl
  exact absurd h (by decide)

/-- What one action does to the record of exits. -/
theorem Step.outstanding (h : Step init s a s') (c : ProcId) (hs : Ok init s) :
    (∃ pid status, a = .exit c pid status ∧ s.outstanding c = none ∧
      s'.outstanding c = some (pid, status)) ∨
    (∃ w pid status, a = .wait w (.reaped c pid status) ∧ s.outstanding c = some (pid, status) ∧
      s'.outstanding c = none) ∨
    ¬ a.About c ∧ s'.outstanding c = s.outstanding c := by
  cases h with
  | @fork p c' hp hf hc =>
    exact .inr (.inr ⟨id, outstanding_setProc (by simp [hc]) (by simp [Proc.claim])⟩)
  | @forkFail p c' hp hf =>
    have hu : (s.procs c').state = .used := ((hs.slot c').forker hf).2.1
    exact .inr (.inr ⟨id, outstanding_setProc (by simp [hu]) (by simp [Proc.release])⟩)
  | @link p c' hp hf =>
    have hu : (s.procs c').state = .used := ((hs.slot c').forker hf).2.1
    exact .inr (.inr ⟨id, outstanding_setProc (by simp [hu]) (by simp [hu])⟩)
  | @publish p c' hp hf =>
    have hu : (s.procs c').state = .used := ((hs.slot c').forker hf).2.1
    exact .inr (.inr ⟨id, outstanding_setProc (by simp [hu]) (by simp [Proc.ready])⟩)
  | @exit p status hp hf hne =>
    by_cases h : p = c
    · subst h
      refine .inl ⟨_, _, rfl, outstanding_of_not_zombie (by simp [hp]), ?_⟩
      unfold Life.outstanding
      rw [if_pos kexit_state_self, kexit_self, ← reparent_pid (s.procs p) p init]
      rfl
    · refine .inr (.inr ⟨h, ?_⟩)
      unfold Life.outstanding
      rw [kexit_of_ne (Ne.symm h), reparent_state, reparent_pid, reparent_xstate]
  | @wait p copies hp hf =>
    rcases s.kwaitPass_cases p copies with ⟨c', hc, he⟩ | ⟨c', hc, he⟩ | he | he
    · rw [he]
      have hz := (exitedChild_spec hc).2
      by_cases h : c' = c
      · subst h
        refine .inr (.inl ⟨p, _, _, rfl, if_pos hz, outstanding_of_not_zombie ?_⟩)
        rw [setProc_self]
        simp [Proc.release]
      · refine .inr (.inr ⟨h, ?_⟩)
        unfold Life.outstanding
        rw [setProc_of_ne s (Ne.symm h)]
    · rw [he]
      exact .inr (.inr ⟨id, rfl⟩)
    · rw [he]
      exact .inr (.inr ⟨id, rfl⟩)
    · rw [he]
      exact .inr (.inr ⟨id, outstanding_setProc (by simp [hp]) (by simp [Proc.sleep])⟩)
  | slot hi hg =>
    obtain ⟨hl, hl', _⟩ := inner_apply hi hg
    exact .inr (.inr ⟨id, outstanding_setProc (live_ne_zombie hl) (live_ne_zombie hl')⟩)
  | @kkill pid p hp =>
    refine .inr (.inr ⟨id, ?_⟩)
    unfold Life.outstanding
    by_cases h : c = p
    · subst h
      rw [setProc_self]
      have hz : (s.procs c).kill.state = .zombie ↔ (s.procs c).state = .zombie := by
        unfold Proc.kill
        dsimp only
        split
        · next hsl => simp [hsl]
        · rfl
      simp only [hz]
      rfl
    · rw [setProc_of_ne s h]
  | kkillNone hp => exact .inr (.inr ⟨id, rfl⟩)

/-- The parent of a process is its guardian. -/
theorem Step.parent (h : Step init s a s') (c : ProcId) (hs : Ok init s) :
    (s'.procs c).parent = guardian init c (s.procs c).parent a := by
  have put : ∀ {p q}, q.parent = (s.procs p).parent →
      ((s.setProc p q).procs c).parent = (s.procs c).parent := by
    intro p q hq
    by_cases hc : c = p
    · subst hc
      rw [setProc_self, hq]
    · rw [setProc_of_ne s hc]
  cases h with
  | fork hp hf hc => exact put rfl
  | @forkFail p c' hp hf =>
    have hpar : (s.procs c').parent = none := ((hs.slot c').forker hf).2.2
    exact put hpar.symm
  | @link p c' hp hf =>
    show ((s.setProc c' _).procs c).parent = if c' = c then some p else _
    by_cases hc : c' = c
    · subst hc
      rw [setProc_self, if_pos rfl]
    · rw [setProc_of_ne s (Ne.symm hc), if_neg hc]
  | publish hp hf => exact put rfl
  | exit hp hf hne => exact kexit_parent _ _ _
  | @wait p copies hp hf =>
    rcases s.kwaitPass_cases p copies with ⟨c', hc, he⟩ | ⟨c', hc, he⟩ | he | he
    · rw [he]
      show ((s.setProc c' _).procs c).parent = if c' = c then none else _
      by_cases h : c' = c
      · subst h
        rw [setProc_self, if_pos rfl]
        rfl
      · rw [setProc_of_ne s (Ne.symm h), if_neg h]
    · rw [he]
      rfl
    · rw [he]
      rfl
    · rw [he]
      exact put rfl
  | slot hi hg => exact put (inner_apply hi hg).2.2
  | kkill hp => exact put rfl
  | kkillNone hp => rfl

theorem Ok.run {as : List LifeAct} (h : Run (Step init) (boot init) as s) : Ok init s :=
  h.invariant (boot_ok init) fun _ _ _ hs hstep => hs.step hstep

/-- Exits and waits alternate in every run. -/
theorem reaped_of_run {as : List LifeAct} (h : Run (Step init) (boot init) as s) (c : ProcId) :
    Reaped c as (s.outstanding c) := by
  induction h with
  | nil =>
    have hb : ((boot init).procs c).state ≠ .zombie := by
      by_cases hc : c = init
      · subst hc
        simp [boot, Proc.ready]
      · simp [boot, update_of_ne hc, Proc.fresh]
    rw [outstanding_of_not_zombie hb]
    exact .nil
  | @snoc as s s' a hrun hstep ih =>
    rcases hstep.outstanding c (.run hrun) with ⟨pid, status, rfl, ho, ho'⟩ |
      ⟨w, pid, status, rfl, ho, ho'⟩ | ⟨hn, ho⟩
    · rw [ho] at ih
      rw [ho']
      exact .exit ih
    · rw [ho] at ih
      rw [ho']
      exact .wait ih
    · rw [ho]
      exact .other ih hn

/-- The field `parent` is the guardian that the history tells. -/
theorem parent_of_run {as : List LifeAct} (h : Run (Step init) (boot init) as s) (c : ProcId) :
    (s.procs c).parent = as.foldl (guardian init c) none := by
  induction h with
  | nil =>
    by_cases hc : c = init
    · subst hc
      simp [boot, Proc.ready, Proc.claim, Proc.fresh]
    · simp [boot, update_of_ne hc, Proc.fresh]
  | @snoc as s s' a hrun hstep ih =>
    rw [hstep.parent c (.run hrun), ih, List.foldl_append]
    rfl

/-- A wait that reaps does so for the parent, with what the child left. -/
theorem Step.reaped {w c : ProcId} {pid status : Int32}
    (h : Step init s (.wait w (.reaped c pid status)) s') :
    (s.procs c).parent = some w ∧ s.outstanding c = some (pid, status) ∧
      (s'.procs c).state = .unused := by
  generalize ha : LifeAct.wait w (.reaped c pid status) = a at h
  cases h with
  | @wait p copies hp hf =>
    rcases s.kwaitPass_cases p copies with ⟨c', hc, he⟩ | ⟨c', hc, he⟩ | he | he
    · rw [he] at ha ⊢
      cases ha
      obtain ⟨hpar, hz⟩ := exitedChild_spec hc
      refine ⟨hpar, if_pos hz, ?_⟩
      rw [setProc_self]
      rfl
    · rw [he] at ha
      cases ha
    · rw [he] at ha
      cases ha
    · rw [he] at ha
      cases ha
  | _ => cases ha

/-- A wait by the parent of a ZOMBIE can reap it. -/
theorem Step.reap {w c : ProcId} (hp : (s.procs w).state = .running) (hf : s.forking w = none)
    (hc : s.exitedChild w = some c) :
    Step init s (.wait w (.reaped c (s.procs c).pid (s.procs c).xstate))
      (s.setProc c { (s.procs c).release with trapframe := 0 }) := by
  have hpass : s.kwaitPass w true = (s.setProc c { (s.procs c).release with trapframe := 0 },
      .reaped c (s.procs c).pid (s.procs c).xstate) := by
    unfold kwaitPass
    rw [hc]
    rfl
  have hstep := @Step.wait init s w true hp hf
  rwa [hpass] at hstep

/-- A wait that cannot copy the status out leaves everything as it was: the same call can reap. -/
theorem Step.copyFailed {w c : ProcId} (h : Step init s (.wait w (.copyFailed c)) s') :
    s' = s ∧ ∃ s'', Step init s' (.wait w (.reaped c (s.procs c).pid (s.procs c).xstate)) s'' := by
  generalize ha : LifeAct.wait w (.copyFailed c) = a at h
  cases h with
  | @wait p copies hp hf =>
    rcases s.kwaitPass_cases p copies with ⟨c', hc, he⟩ | ⟨c', hc, he⟩ | he | he
    · rw [he] at ha
      cases ha
    · rw [he] at ha ⊢
      cases ha
      exact ⟨rfl, _, .reap hp hf hc⟩
    · rw [he] at ha
      cases ha
    · rw [he] at ha
      cases ha
  | _ => cases ha

/-- **The life of a process**, in every interleaving of `kfork`, `kexit` and `kwait`:
* a process that is neither init, nor UNUSED, nor inside the `kfork` that creates it has a parent, and
  the parent is alive; an UNUSED slot has none;
* the parent is the process that forked it, or init after that process exited;
* each exit is answered by exactly one wait, with its pid and its status, and until then the process
  is a ZOMBIE; the wait is made by its parent;
* a wait that fails to copy the status out changes nothing. -/
theorem lifecycle {as : List LifeAct} (h : Run (Step init) (boot init) as s) :
    (∀ c, c ≠ init → (s.procs c).state ≠ .unused → (∀ p f, s.forking p = some f → f.child ≠ c) →
      ∃ w, (s.procs c).parent = some w ∧ (s.procs w).state ≠ .unused ∧
        (s.procs w).state ≠ .zombie) ∧
    (∀ c, (s.procs c).state = .unused → (s.procs c).parent = none) ∧
    (∀ c, (s.procs c).parent = as.foldl (guardian init c) none) ∧
    (∀ c, Reaped c as (s.outstanding c)) ∧
    (∀ w c pid status s', Step init s (.wait w (.reaped c pid status)) s' →
      (s.procs c).parent = some w ∧ s.outstanding c = some (pid, status) ∧
        (s'.procs c).state = .unused) ∧
    (∀ w c s', Step init s (.wait w (.copyFailed c)) s' → s' = s ∧
      ∃ s'', Step init s' (.wait w (.reaped c (s.procs c).pid (s.procs c).xstate)) s'') := by
  have hs : Ok init s := .run h
  refine ⟨?_, fun c => (hs.slot c).unused, parent_of_run h, reaped_of_run h, fun _ _ _ _ _ => Step.reaped,
    fun _ _ _ => Step.copyFailed⟩
  intro c hc hu hf
  have hl : (s.procs c).state.Live ∨ (s.procs c).state = .zombie := by
    cases hst : (s.procs c).state with
    | unused => exact absurd hst hu
    | used =>
      obtain ⟨p, b, hp⟩ := (hs.slot c).used hst
      exact absurd rfl (hf p _ hp)
    | sleeping => exact .inl (.inl rfl)
    | runnable => exact .inl (.inr (.inl rfl))
    | running => exact .inl (.inr (.inr rfl))
    | zombie => exact .inr rfl
  obtain ⟨w, hw, hwl⟩ := (hs.slot c).parent hc hl
  refine ⟨w, hw, fun h => ?_, live_ne_zombie hwl⟩
  rw [h] at hwl
  exact absurd hwl (by decide)

/-- init forks a process, which exits with status 7 and is reaped. -/
theorem lifecycle_one_child : ∃ as s, Run (Step 0) (boot 0) as s ∧
    LifeAct.wait 0 (.reaped 1 2 7) ∈ as ∧ Reaped 1 as (s.outstanding 1) := by
  have h₁ : Run (Step 0) (boot 0) [.slot 0 .dispatch] _ := Run.nil.snoc (.slot rfl rfl)
  have h₂ := h₁.snoc (a := .fork 0 1) (.fork rfl rfl rfl)
  have h₃ := (h₂.snoc (a := .link 0 1) (.link rfl rfl)).snoc (a := .publish 0 1) (.publish rfl rfl)
  have h₄ := (h₃.snoc (a := .slot 1 .dispatch) (.slot rfl rfl)).snoc
    (a := .exit 1 2 7) (.exit rfl rfl (by decide))
  have h₅ := h₄.snoc (a := .wait 0 (.reaped 1 2 7))
    (.reap rfl rfl (firstIdx_eq_some_of rfl (by decide)))
  exact ⟨_, _, h₅, by simp, (lifecycle h₅).2.2.2.1 1⟩

end Life

end Xv6
