import Mathlib.Logic.Function.Basic
import Xv6.Lib.PanicState
import Xv6.Lib.Search
import Xv6.Param

/-!
# The disk request queue

`diskq` of `kernel/swap_disk.c`: a table of pending requests, the head position and the latency
counters, and the two scheduling policies. Requests are synchronous: `disk_submit_and_dispatch` puts
one request in, lets the policy choose one and serves the chosen one before it returns. So between
calls the queue is idle (`DiskQueue.Idle`), and from an idle queue a call never panics
(`dispatchOne_idle`).

The C `int` fields are 32-bit two's-complement numbers, `Int32`.
-/

namespace Xv6.SwapDisk

open Function

/-- `MAX_DISK_REQS`. -/
abbrev maxDiskReqs : Nat := 128

instance : NeZero maxDiskReqs := ⟨by decide⟩

/-- `ROTATIONAL_DELAY`. -/
def rotationalDelay : Int32 := 5

/-- `DISK_SCHED_FCFS` and `DISK_SCHED_SSTF`. -/
inductive SchedPolicy where
  | fcfs
  | sstf
  deriving DecidableEq, Repr

/-- `struct disk_req`. -/
structure DiskReq where
  valid : Bool
  blockno : Int32
  write : Bool
  proc : Option ProcId
  priority : Int32
  deriving DecidableEq

/-- `diskq`, without its lock: every access below is one critical section. -/
structure DiskQueue where
  reqs : Fin maxDiskReqs → DiskReq
  head : Int32
  policy : SchedPolicy
  totalLatency : Int32
  totalRequests : Int32

/-- The disk counters of a `struct proc`. -/
structure DiskStats where
  diskReads : Int32
  diskWrites : Int32
  avgDiskLatency : Int32
  deriving DecidableEq

/-- `myproc()` and its `cur_queue_lvl`, as the disk layer reads them. -/
structure Caller where
  proc : ProcId
  level : Int32

/-- Between two calls no request is pending. -/
def DiskQueue.Idle (q : DiskQueue) : Prop := ∀ i, (q.reqs i).valid = false

/-- `|a - b|` the way the source computes it. -/
def seekDistance (a b : Int32) : Int32 :=
  let dist := a - b
  if dist < 0 then -dist else dist

/-- The accumulators of the SSTF scan: `chosen`, `min_dist` and `best_pri`. -/
structure SstfScan where
  chosen : Option (Fin maxDiskReqs)
  minDist : Int32
  bestPri : Int32

/-- One turn of the SSTF loop. -/
def sstfTurn (q : DiskQueue) (acc : SstfScan) (i : Fin maxDiskReqs) : SstfScan :=
  if (q.reqs i).valid then
    let dist := seekDistance (q.reqs i).blockno q.head
    if acc.chosen = none ∨ dist < acc.minDist ∨
        (dist = acc.minDist ∧ (q.reqs i).priority < acc.bestPri) then
      ⟨some i, dist, (q.reqs i).priority⟩
    else acc
  else acc

/-- `disk_schedule_locked`: the request to serve next, `none` for the source's `-1`. -/
def diskScheduleLocked (q : DiskQueue) : Option (Fin maxDiskReqs) :=
  match q.policy with
  | .fcfs => firstIdx fun i => (q.reqs i).valid
  | .sstf => ((List.finRange maxDiskReqs).foldl (sstfTurn q) ⟨none, -1, -1⟩).chosen

/-- Putting a request into the entry `slot`. -/
def DiskQueue.submit (q : DiskQueue) (slot : Fin maxDiskReqs) (req : DiskReq) : DiskQueue :=
  { q with reqs := update q.reqs slot req }

/-- Taking the request `idx` out of the queue and moving the head to it. -/
def DiskQueue.serve (q : DiskQueue) (idx : Fin maxDiskReqs) : DiskQueue :=
  let req := q.reqs idx
  { q with
    reqs := update q.reqs idx { req with valid := false }
    head := req.blockno
    totalLatency := q.totalLatency + (seekDistance req.blockno q.head + rotationalDelay)
    totalRequests := q.totalRequests + 1 }

/-- `disk_get_avg_latency`, also the quotient a dispatch stores in its process. -/
def diskGetAvgLatency (q : DiskQueue) : Int32 :=
  if q.totalRequests = 0 then 0 else q.totalLatency / q.totalRequests

/-- The counters of the request's process after the request was served. -/
def accountReq (req : DiskReq) (q : DiskQueue) (stats : ProcId → DiskStats) :
    ProcId → DiskStats :=
  match req.proc with
  | none => stats
  | some p =>
    let st := stats p
    update stats p
      { diskReads := if req.write then st.diskReads else st.diskReads + 1
        diskWrites := if req.write then st.diskWrites + 1 else st.diskWrites
        avgDiskLatency := diskGetAvgLatency q }

/-- `disk_submit_and_dispatch` on the queue and the counters. -/
def dispatchOne (me : Caller) (blockno : Int32) (write : Bool) (q : DiskQueue)
    (stats : ProcId → DiskStats) : Except DiskPanic (DiskQueue × (ProcId → DiskStats)) :=
  match firstIdx fun i => !(q.reqs i).valid with
  | none => .error .diskSubmit
  | some slot =>
    let q₁ := q.submit slot ⟨true, blockno, write, some me.proc, me.level⟩
    match diskScheduleLocked q₁ with
    | none => .ok (q₁, stats)
    | some idx => .ok (q₁.serve idx, accountReq (q₁.reqs idx) (q₁.serve idx) stats)

/-! ## An idle queue stays idle -/

/-- The SSTF scan only ever chooses a valid request. -/
theorem sstfTurn_foldl_valid (q : DiskQueue) (l : List (Fin maxDiskReqs)) :
    ∀ acc : SstfScan, (∀ i, acc.chosen = some i → (q.reqs i).valid = true) →
      ∀ i, (l.foldl (sstfTurn q) acc).chosen = some i → (q.reqs i).valid = true := by
  induction l with
  | nil => exact fun _ h => h
  | cons j js ih =>
    intro acc hacc
    rw [List.foldl_cons]
    apply ih
    intro i hi
    unfold sstfTurn at hi
    split at hi
    · next hv =>
        dsimp only at hi
        split at hi
        · cases hi
          exact hv
        · exact hacc i hi
    · exact hacc i hi

/-- Whatever the policy, the request chosen is a valid one. -/
theorem diskScheduleLocked_valid {q : DiskQueue} {i : Fin maxDiskReqs}
    (h : diskScheduleLocked q = some i) : (q.reqs i).valid = true := by
  unfold diskScheduleLocked at h
  split at h
  · exact firstIdx_holds h
  · exact sstfTurn_foldl_valid q _ ⟨none, -1, -1⟩ (by intro i hi; cases hi) i h

/-- Once the SSTF scan has chosen a request it keeps one. -/
theorem sstfTurn_foldl_isSome (q : DiskQueue) (l : List (Fin maxDiskReqs)) :
    ∀ acc : SstfScan, (acc.chosen.isSome ∨ ∃ i ∈ l, (q.reqs i).valid = true) →
      (l.foldl (sstfTurn q) acc).chosen.isSome := by
  induction l with
  | nil =>
    rintro acc (h | ⟨i, hi, -⟩)
    · exact h
    · cases hi
  | cons j js ih =>
    intro acc h
    rw [List.foldl_cons]
    apply ih
    unfold sstfTurn
    dsimp only
    rcases h with h | ⟨i, hi, hv⟩
    · left
      split
      · split
        · rfl
        · exact h
      · exact h
    · rcases List.mem_cons.mp hi with rfl | hi
      · left
        rw [if_pos hv]
        split
        · rfl
        · next hno =>
            -- the scan skips a valid request only when it already holds one
            simp only [not_or] at hno
            exact Option.isSome_iff_ne_none.mpr hno.1
      · exact Or.inr ⟨i, hi, hv⟩

/-- Whatever the policy, a queue with a valid request has a request to serve. -/
theorem diskScheduleLocked_isSome {q : DiskQueue} {i : Fin maxDiskReqs}
    (h : (q.reqs i).valid = true) : ∃ j, diskScheduleLocked q = some j := by
  unfold diskScheduleLocked
  split
  · exact firstIdx_isSome h
  · exact Option.isSome_iff_exists.mp
      (sstfTurn_foldl_isSome q _ _ (Or.inr ⟨i, List.mem_finRange i, h⟩))

/-- The queue after the request in `slot` was served and nothing else is pending. -/
def DiskQueue.served (q : DiskQueue) (slot : Fin maxDiskReqs) (req : DiskReq) : DiskQueue :=
  (q.submit slot req).serve slot

theorem DiskQueue.submit_self (q : DiskQueue) (slot : Fin maxDiskReqs) (req : DiskReq) :
    (q.submit slot req).reqs slot = req :=
  update_self ..

section Idle

variable {q : DiskQueue} (hq : q.Idle)

include hq

theorem DiskQueue.Idle.served (slot : Fin maxDiskReqs) (req : DiskReq) : (q.served slot req).Idle := by
  intro i
  unfold DiskQueue.served DiskQueue.serve DiskQueue.submit
  by_cases hi : i = slot
  · simp [hi]
  · simp [hi, hq i]

theorem DiskQueue.Idle.exists_free : ∃ slot, firstIdx (fun i => !(q.reqs i).valid) = some slot :=
  firstIdx_isSome (i := 0) (by simp [hq 0])

/-- The request submitted is the only valid one, so whatever the policy, it is the one that is served. -/
theorem DiskQueue.Idle.schedule (slot : Fin maxDiskReqs) {req : DiskReq} (hreq : req.valid = true) :
    diskScheduleLocked (q.submit slot req) = some slot := by
  obtain ⟨idx, hidx⟩ := diskScheduleLocked_isSome (q := q.submit slot req) (i := slot)
    (by rw [q.submit_self, hreq])
  have hvalid := diskScheduleLocked_valid hidx
  rw [hidx]
  by_contra hne
  simp only [DiskQueue.submit, update_of_ne fun h => hne (congrArg some h)] at hvalid
  rw [hq idx] at hvalid
  cases hvalid

/-- **Requests are synchronous.** From an idle queue a submission succeeds, and its request is served. -/
theorem dispatchOne_idle (me : Caller) (blockno : Int32) (write : Bool) (stats : ProcId → DiskStats) :
    ∃ slot, dispatchOne me blockno write q stats =
      .ok (q.served slot ⟨true, blockno, write, some me.proc, me.level⟩,
        accountReq ⟨true, blockno, write, some me.proc, me.level⟩
          (q.served slot ⟨true, blockno, write, some me.proc, me.level⟩) stats) := by
  obtain ⟨slot, hslot⟩ := hq.exists_free
  refine ⟨slot, ?_⟩
  unfold dispatchOne
  rw [hslot]
  dsimp only
  rw [hq.schedule slot rfl]
  dsimp only
  rw [q.submit_self]
  rfl

end Idle

end Xv6.SwapDisk
