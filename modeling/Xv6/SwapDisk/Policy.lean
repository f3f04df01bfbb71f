import Xv6.Lib.Transition
import Xv6.SwapDisk.Raid

/-!
# The disk scheduling policy is unobservable

`disk_submit_and_dispatch` serves a request before it returns, so the request it submits is the only
one the policy can choose from. This holds for calls of any number of harts whose critical sections
interleave (`Machine`), and it makes the policy a value that nothing depends on: what a sequence of
calls leaves in the counters is computed by `Accounts.serve`, which knows no policy.
-/

namespace Xv6.SwapDisk

open Function

/-! ## One call, critical section by critical section -/

/-- The first critical section of `disk_submit_and_dispatch`: the queue it leaves and its local copy
`req` of the request served. There is none when the schedule comes back with `-1`. -/
def submitSection (me : Caller) (blockno : Int32) (write : Bool) (q : DiskQueue) :
    Except DiskPanic (DiskQueue × Option DiskReq) :=
  match firstIdx fun i => !(q.reqs i).valid with
  | none => .error .diskSubmit
  | some slot =>
    let q₁ := q.submit slot ⟨true, blockno, write, some me.proc, me.level⟩
    match diskScheduleLocked q₁ with
    | none => .ok (q₁, none)
    | some idx => .ok (q₁.serve idx, some (q₁.reqs idx))

/-- `disk_writes++` or `disk_reads++` of the process `p` of the request. -/
def countReq (req : DiskReq) (p : ProcId) (stats : ProcId → DiskStats) : ProcId → DiskStats :=
  let st := stats p
  update stats p
    { st with
      diskReads := if req.write then st.diskReads else st.diskReads + 1
      diskWrites := if req.write then st.diskWrites + 1 else st.diskWrites }

/-- `p->avg_disk_latency = tr ? tl / tr : 0`. -/
def storeAverage (p : ProcId) (tl tr : Int32) (stats : ProcId → DiskStats) : ProcId → DiskStats :=
  update stats p { stats p with avgDiskLatency := if tr = 0 then 0 else tl / tr }

/-- A whole call is its sections one after the other. -/
theorem dispatchOne_eq (me : Caller) (blockno : Int32) (write : Bool) (q : DiskQueue)
    (stats : ProcId → DiskStats) :
    dispatchOne me blockno write q stats =
      match submitSection me blockno write q with
      | .error e => .error e
      | .ok (q', none) => .ok (q', stats)
      | .ok (q', some req) =>
        match req.proc with
        | none => .ok (q', stats)
        | some p => .ok (q', storeAverage p q'.totalLatency q'.totalRequests (countReq req p stats)) := by
  unfold dispatchOne submitSection
  cases firstIdx fun i => !(q.reqs i).valid with
  | none => rfl
  | some slot =>
    dsimp only
    cases diskScheduleLocked (q.submit slot ⟨true, blockno, write, some me.proc, me.level⟩) with
    | none => rfl
    | some idx =>
      unfold accountReq
      dsimp only
      cases ((q.submit slot ⟨true, blockno, write, some me.proc, me.level⟩).reqs idx).proc with
      | none => rfl
      | some p => simp [storeAverage, countReq, diskGetAvgLatency]

/-- **From an idle queue** a submission finds a free entry and the schedule, whatever the policy,
chooses the request just submitted. -/
theorem submitSection_idle {q : DiskQueue} (hq : q.Idle) (me : Caller) (blockno : Int32)
    (write : Bool) : ∃ slot, submitSection me blockno write q =
      .ok (q.served slot ⟨true, blockno, write, some me.proc, me.level⟩,
        some ⟨true, blockno, write, some me.proc, me.level⟩) := by
  obtain ⟨slot, hslot⟩ := hq.exists_free
  refine ⟨slot, ?_⟩
  unfold submitSection
  rw [hslot]
  dsimp only
  rw [hq.schedule slot rfl]
  dsimp only
  rw [q.submit_self]
  rfl

/-- The policy an `int` of the source stands for. -/
def SchedPolicy.ofInt (policy : Int) : Option SchedPolicy :=
  if policy = 0 then some .fcfs else if policy = 1 then some .sstf else none

/-- `setdisksched`: `-1` and no change for a number that is no policy. -/
def setdisksched (policy : Int) (q : DiskQueue) : Int × DiskQueue :=
  match SchedPolicy.ofInt policy with
  | none => (-1, q)
  | some pol => (0, { q with policy := pol })

theorem DiskQueue.Idle.setdisksched {q : DiskQueue} (hq : q.Idle) (policy : Int) :
    (setdisksched policy q).2.Idle := by
  unfold SwapDisk.setdisksched
  cases SchedPolicy.ofInt policy with
  | none => exact hq
  | some pol => exact hq

/-! ## Calls of several harts -/

/-- Where a hart stands in a call of `disk_submit_and_dispatch`. -/
inductive CallPoint where
  | outside
  /-- Past the first critical section. -/
  | served (req : DiskReq)
  /-- Past the counter of the process. -/
  | counted (p : ProcId)
  /-- Past the second critical section, with `tl` and `tr`. -/
  | averaging (p : ProcId) (tl tr : Int32)

/-- The queue and the counters, and where each hart stands. -/
structure Machine (H : Type) where
  queue : DiskQueue
  stats : ProcId → DiskStats
  point : H → CallPoint

inductive Action (H : Type) where
  | submit (h : H) (me : Caller) (blockno : Int32) (write : Bool)
  | count (h : H)
  | readTotals (h : H)
  | store (h : H)
  | setdisksched (policy : Int)

variable {H : Type} [DecidableEq H]

def Machine.move (s : Machine H) (h : H) (c : CallPoint) : Machine H :=
  { s with point := update s.point h c }

/-- One step of one hart. A panic stops the machine, so it is no step. -/
inductive Machine.Step : Machine H → Action H → Machine H → Prop
  | serve {s : Machine H} {h me blockno write q req} (hp : s.point h = .outside)
      (hs : submitSection me blockno write s.queue = .ok (q, some req)) :
      Step s (.submit h me blockno write) ({ s with queue := q }.move h (.served req))
  | nothing {s : Machine H} {h me blockno write q} (hp : s.point h = .outside)
      (hs : submitSection me blockno write s.queue = .ok (q, none)) :
      Step s (.submit h me blockno write) { s with queue := q }
  | count {s : Machine H} {h req p} (hp : s.point h = .served req) (hr : req.proc = some p) :
      Step s (.count h) ({ s with stats := countReq req p s.stats }.move h (.counted p))
  | skip {s : Machine H} {h req} (hp : s.point h = .served req) (hr : req.proc = none) :
      Step s (.count h) (s.move h .outside)
  | readTotals {s : Machine H} {h p} (hp : s.point h = .counted p) :
      Step s (.readTotals h) (s.move h (.averaging p s.queue.totalLatency s.queue.totalRequests))
  | store {s : Machine H} {h p tl tr} (hp : s.point h = .averaging p tl tr) :
      Step s (.store h) ({ s with stats := storeAverage p tl tr s.stats }.move h .outside)
  | setdisksched {s : Machine H} {policy} :
      Step s (.setdisksched policy) { s with queue := (SwapDisk.setdisksched policy s.queue).2 }

/-- After `swap_disk_init`, with every hart outside. -/
def Machine.init : Machine H where
  queue := swapDiskInit.queue
  stats := swapDiskInit.stats
  point _ := .outside

theorem swapDiskInit_idle : swapDiskInit.queue.Idle := fun _ => rfl

/-- Between critical sections no request is pending. -/
theorem Machine.Step.idle {s s' : Machine H} {a : Action H} (hq : s.queue.Idle) (h : Step s a s') :
    s'.queue.Idle := by
  have hsubmit : ∀ {me blockno write q res}, submitSection me blockno write s.queue = .ok (q, res) →
      q.Idle := by
    intro me blockno write q res hs
    obtain ⟨slot, hrun⟩ := submitSection_idle hq me blockno write
    rw [hrun] at hs
    cases hs
    exact hq.served slot _
  cases h with
  | serve _ hs => exact hsubmit hs
  | nothing _ hs => exact hsubmit hs
  | count _ _ => exact hq
  | skip _ _ => exact hq
  | readTotals _ => exact hq
  | store _ => exact hq
  | setdisksched => exact hq.setdisksched _

/-! ## The counters without a policy -/

/-- What the counters of the disk and of the processes say. -/
structure Accounts where
  head : Int32
  totalLatency : Int32
  totalRequests : Int32
  stats : ProcId → DiskStats

/-- A submission as an observer sees it. -/
structure Submission where
  blockno : Int32
  write : Bool
  proc : ProcId
  deriving DecidableEq

/-- Serving a request at once. -/
def Accounts.serve (a : Accounts) (r : Submission) : Accounts :=
  let st := a.stats r.proc
  let tl := a.totalLatency + (seekDistance r.blockno a.head + rotationalDelay)
  let tr := a.totalRequests + 1
  { head := r.blockno
    totalLatency := tl
    totalRequests := tr
    stats := update a.stats r.proc
      { diskReads := if r.write then st.diskReads else st.diskReads + 1
        diskWrites := if r.write then st.diskWrites + 1 else st.diskWrites
        avgDiskLatency := if tr = 0 then 0 else tl / tr } }

def accounts (q : DiskQueue) (stats : ProcId → DiskStats) : Accounts :=
  ⟨q.head, q.totalLatency, q.totalRequests, stats⟩

/-- **A call refines** serving the request at once, whatever the policy and the level. -/
theorem dispatchOne_accounts {q : DiskQueue} (hq : q.Idle) (me : Caller) (blockno : Int32)
    (write : Bool) (stats : ProcId → DiskStats) :
    ∃ q' stats', dispatchOne me blockno write q stats = .ok (q', stats') ∧ q'.Idle ∧
      accounts q' stats' = (accounts q stats).serve ⟨blockno, write, me.proc⟩ := by
  obtain ⟨slot, hrun⟩ := submitSection_idle hq me blockno write
  rw [dispatchOne_eq, hrun]
  refine ⟨_, _, rfl, hq.served slot _, ?_⟩
  simp only [accounts, Accounts.serve, DiskQueue.served, DiskQueue.serve, DiskQueue.submit,
    storeAverage, countReq, update_self, update_idem]
  rfl

/-! ## Sequences of calls -/

/-- A call run to completion, or a change of the policy. -/
inductive Op where
  | call (me : Caller) (blockno : Int32) (write : Bool)
  | setdisksched (policy : Int)

def Op.submission : Op → Option Submission
  | .call me blockno write => some ⟨blockno, write, me.proc⟩
  | .setdisksched _ => none

def Op.exec : Op → DiskQueue × (ProcId → DiskStats) →
    Except DiskPanic (DiskQueue × (ProcId → DiskStats))
  | .call me blockno write, (q, stats) => dispatchOne me blockno write q stats
  | .setdisksched policy, (q, stats) => .ok ((SwapDisk.setdisksched policy q).2, stats)

def execOps (ops : List Op) (s : DiskQueue × (ProcId → DiskStats)) :
    Except DiskPanic (DiskQueue × (ProcId → DiskStats)) :=
  ops.foldlM (fun s op => op.exec s) s

/-- A call on an idle queue serves its request. -/
theorem Op.exec_accounts (op : Op) {q : DiskQueue} (hq : q.Idle) (stats : ProcId → DiskStats) :
    ∃ q' stats', op.exec (q, stats) = .ok (q', stats') ∧ q'.Idle ∧
      accounts q' stats' = op.submission.elim (accounts q stats) (accounts q stats).serve := by
  cases op with
  | call me blockno write => exact dispatchOne_accounts hq me blockno write stats
  | setdisksched policy =>
    refine ⟨_, _, rfl, hq.setdisksched policy, ?_⟩
    unfold SwapDisk.setdisksched
    cases SchedPolicy.ofInt policy with
    | none => rfl
    | some pol => rfl

/-- Calls in a row serve their requests in turn. -/
theorem execOps_accounts (ops : List Op) : ∀ {q : DiskQueue} (stats : ProcId → DiskStats), q.Idle →
    ∃ q' stats', execOps ops (q, stats) = .ok (q', stats') ∧ q'.Idle ∧
      accounts q' stats' = (ops.filterMap Op.submission).foldl Accounts.serve (accounts q stats) := by
  induction ops with
  | nil => exact fun _ hq => ⟨_, _, rfl, hq, rfl⟩
  | cons op ops ih =>
    intro q stats hq
    obtain ⟨q₁, stats₁, hrun, hq₁, hacc⟩ := op.exec_accounts hq stats
    obtain ⟨q₂, stats₂, hrun₂, hq₂, hacc₂⟩ := ih stats₁ hq₁
    refine ⟨q₂, stats₂, ?_, hq₂, ?_⟩
    · rw [execOps, List.foldlM_cons, hrun]
      exact hrun₂
    · rw [hacc₂, hacc]
      cases hsub : op.submission with
      | none => simp [hsub]
      | some r => simp [hsub]

/-- **The policy is unobservable.** In every interleaving no request is pending between critical
sections and a submission is served as the request it submitted; so two sequences of calls with the
same submissions, and any changes of the policy in between, leave the same counters. -/
theorem policy_unobservable :
    (∀ (H : Type) [DecidableEq H] (as : List (Action H)) (s : Machine H),
      Transition.Run Machine.Step Machine.init as s → s.queue.Idle ∧
        ∀ me blockno write, ∃ q, submitSection me blockno write s.queue =
          .ok (q, some ⟨true, blockno, write, some me.proc, me.level⟩)) ∧
    ∀ ops ops' : List Op, ops.filterMap Op.submission = ops'.filterMap Op.submission →
      ∃ q stats q' stats', execOps ops (swapDiskInit.queue, swapDiskInit.stats) = .ok (q, stats) ∧
        execOps ops' (swapDiskInit.queue, swapDiskInit.stats) = .ok (q', stats') ∧
        q.head = q'.head ∧ q.totalLatency = q'.totalLatency ∧ q.totalRequests = q'.totalRequests ∧
        stats = stats' := by
  refine ⟨?_, ?_⟩
  · intro H _ as s hrun
    have hidle : s.queue.Idle :=
      hrun.invariant (I := fun s => s.queue.Idle) swapDiskInit_idle fun _ _ _ hq hs => hs.idle hq
    refine ⟨hidle, ?_⟩
    intro me blockno write
    obtain ⟨slot, hs⟩ := submitSection_idle hidle me blockno write
    exact ⟨_, hs⟩
  · intro ops ops' hsub
    obtain ⟨q, stats, hrun, -, hacc⟩ := execOps_accounts ops swapDiskInit.stats swapDiskInit_idle
    obtain ⟨q', stats', hrun', -, hacc'⟩ :=
      execOps_accounts ops' swapDiskInit.stats swapDiskInit_idle
    rw [← hsub, ← hacc] at hacc'
    exact ⟨q, stats, q', stats', hrun, hrun', (congrArg Accounts.head hacc').symm,
      (congrArg Accounts.totalLatency hacc').symm, (congrArg Accounts.totalRequests hacc').symm,
      (congrArg Accounts.stats hacc').symm⟩

/-- Two calls under SSTF and under FCFS. -/
theorem policy_unobservable_two_calls :
    ∃ q stats q' stats',
      execOps [.setdisksched 1, .call ⟨0, 0⟩ 9 true, .call ⟨1, 2⟩ 4 false]
        (swapDiskInit.queue, swapDiskInit.stats) = .ok (q, stats) ∧
      execOps [.call ⟨0, 3⟩ 9 true, .setdisksched 7, .call ⟨1, 0⟩ 4 false]
        (swapDiskInit.queue, swapDiskInit.stats) = .ok (q', stats') ∧
      q.head = q'.head ∧ q.totalLatency = q'.totalLatency ∧ q.totalRequests = q'.totalRequests ∧
      stats = stats' :=
  policy_unobservable.2 _ _ rfl

end Xv6.SwapDisk
