import Mathlib.Algebra.Order.Group.Unbundled.Int
import Mathlib.Data.List.MinMax
import Mathlib.Data.Prod.Lex
import Mathlib.Tactic.NormNum
import Xv6.SwapDisk.Raid

/-!
# Which request the scheduler chooses

`disk_schedule_locked` scans the queue once and keeps the best request so far. Under SSTF this is the
first request that is least by distance and then by priority, so the least one when the index decides
between the rest.

The distance is an `int`. It is the distance of the two blocks as long as their difference fits, which
it does for blocks on a disk and any head not lower than `2 ^ 14 - 2 ^ 31`; a position on a disk is
never negative.
-/

namespace Xv6.SwapDisk

open List Int32

/-! ## Distances -/

/-- A block number of a disk. -/
def OnDisk (b : Int32) : Prop := 0 ≤ b.toInt ∧ b.toInt < diskBlocksPerDisk

/-- **The seek distance** is the distance, as long as the difference is an `int`. -/
theorem seekDistance_toInt {a b : Int32} (h : |a.toInt - b.toInt| < 2 ^ 31) :
    (seekDistance a b).toInt = |a.toInt - b.toInt| := by
  rw [abs_lt] at h
  have hsub : (a - b).toInt = a.toInt - b.toInt := by
    rw [toInt_sub]
    exact Int.bmod_eq_of_le (by norm_num; omega) (by norm_num; omega)
  unfold seekDistance
  dsimp only
  split
  · next hneg =>
      rw [lt_iff_toInt_lt, hsub, toInt_zero] at hneg
      rw [toInt_neg, hsub, abs_of_neg hneg]
      exact Int.bmod_eq_of_le (by norm_num; omega) (by norm_num; omega)
  · next hpos =>
      rw [lt_iff_toInt_lt, hsub, toInt_zero, not_lt] at hpos
      rw [hsub, abs_of_nonneg hpos]

/-! ## The SSTF scan -/

/-- What requests are compared by: the distance, then the priority, then the index. -/
def requestKey (q : DiskQueue) (i : Fin maxDiskReqs) : ℤ ×ₗ ℤ ×ₗ Fin maxDiskReqs :=
  toLex (|(q.reqs i).blockno.toInt - q.head.toInt|, toLex ((q.reqs i).priority.toInt, i))

/-- No two requests have one key. -/
theorem requestKey_injective {q : DiskQueue} {i j : Fin maxDiskReqs} (h : requestKey q i = requestKey q j) :
    i = j := by
  exact congrArg (fun x => (ofLex (ofLex x).2).2) h

/-- The distances of the valid requests are those of the blocks. -/
def Measured (q : DiskQueue) : Prop :=
  ∀ i, (q.reqs i).valid = true → (seekDistance (q.reqs i).blockno q.head).toInt =
    |(q.reqs i).blockno.toInt - q.head.toInt|

theorem measured_of_onDisk {q : DiskQueue} (hreqs : ∀ i, (q.reqs i).valid = true →
    OnDisk (q.reqs i).blockno) (hhead : 2 ^ 14 - 2 ^ 31 ≤ q.head.toInt) : Measured q := by
  intro i hi
  obtain ⟨h₀, h₁⟩ := hreqs i hi
  have hlt := q.head.toInt_lt
  apply seekDistance_toInt
  rw [abs_lt]
  norm_num at *
  omega

/-- `min_dist` and `best_pri` belong to the request chosen so far. -/
def SstfScan.Tracks (q : DiskQueue) (acc : SstfScan) : Prop :=
  ∀ b, acc.chosen = some b → (q.reqs b).valid = true ∧
    acc.minDist = seekDistance (q.reqs b).blockno q.head ∧ acc.bestPri = (q.reqs b).priority

/-- A valid request is taken if none is chosen yet or the test of the turn says so. -/
theorem sstfTurn_valid {q : DiskQueue} {i : Fin maxDiskReqs} (hv : (q.reqs i).valid = true)
    (acc : SstfScan) : sstfTurn q acc i =
      if acc.chosen = none ∨ seekDistance (q.reqs i).blockno q.head < acc.minDist ∨
          (seekDistance (q.reqs i).blockno q.head = acc.minDist ∧ (q.reqs i).priority < acc.bestPri) then
        ⟨some i, seekDistance (q.reqs i).blockno q.head, (q.reqs i).priority⟩
      else acc := if_pos hv

/-- The test of a turn compares keys: the request chosen so far has a lower index. -/
theorem turn_test {q : DiskQueue} (hm : Measured q) {b i : Fin maxDiskReqs} (hlt : b < i)
    (hb : (q.reqs b).valid = true) (hi : (q.reqs i).valid = true) :
    (seekDistance (q.reqs i).blockno q.head < seekDistance (q.reqs b).blockno q.head ∨
      (seekDistance (q.reqs i).blockno q.head = seekDistance (q.reqs b).blockno q.head ∧
        (q.reqs i).priority < (q.reqs b).priority)) ↔ requestKey q i < requestKey q b := by
  have hno : ¬ i < b := not_lt.mpr hlt.le
  rw [requestKey, requestKey, Prod.Lex.toLex_lt_toLex, Prod.Lex.toLex_lt_toLex,
    lt_iff_toInt_lt, lt_iff_toInt_lt, ← toInt_inj, hm i hi, hm b hb]
  simp only [hno, and_false, or_false]

/-- **The scan is an `argmin`** over the valid requests. -/
theorem sstfTurn_foldl {q : DiskQueue} (hm : Measured q) : ∀ (l : List (Fin maxDiskReqs))
    (acc : SstfScan), l.Pairwise (· < ·) → acc.Tracks q → (∀ b, acc.chosen = some b → ∀ i ∈ l, b < i) →
    (l.foldl (sstfTurn q) acc).chosen =
      (l.filter fun i => (q.reqs i).valid).foldl
        (List.argAux fun i j => requestKey q i < requestKey q j) acc.chosen := by
  intro l
  induction l with
  | nil => exact fun _ _ _ _ => rfl
  | cons i l ih =>
    intro acc hsorted htracks hbelow
    obtain ⟨hi, hl⟩ := pairwise_cons.mp hsorted
    rw [foldl_cons]
    by_cases hv : (q.reqs i).valid = true
    · rw [filter_cons_of_pos (by exact hv), foldl_cons]
      -- the accumulators after taking the request
      have htake : SstfScan.Tracks q
          ⟨some i, seekDistance (q.reqs i).blockno q.head, (q.reqs i).priority⟩ := by
        rintro b hb
        cases hb
        exact ⟨hv, rfl, rfl⟩
      have hnext : ∀ b, some i = some b → ∀ j ∈ l, b < j := by
        rintro b hb j hj
        cases hb
        exact hi j hj
      rw [sstfTurn_valid hv]
      cases hc : acc.chosen with
      | none =>
        rw [if_pos (.inl rfl), ih _ hl htake hnext]
        rfl
      | some b =>
        obtain ⟨hb, hd, hp⟩ := htracks b hc
        have htest := turn_test hm (hbelow b hc i mem_cons_self) hb hv
        rw [hd, hp]
        by_cases hlt : requestKey q i < requestKey q b
        · rw [if_pos (.inr (htest.mpr hlt)), ih _ hl htake hnext]
          simp [List.argAux, hlt]
        · rw [if_neg (by simpa using fun h => hlt (htest.mp h)), ih acc hl htracks]
          · simp [List.argAux, hlt, hc]
          · exact fun b' hb' j hj => hbelow b' hb' j (mem_cons_of_mem _ hj)
    · rw [filter_cons_of_neg (by simpa using hv)]
      have hskip : sstfTurn q acc i = acc := if_neg hv
      rw [hskip]
      exact ih acc hl htracks fun b hb j hj => hbelow b hb j (mem_cons_of_mem _ hj)

/-- **Under SSTF** the least valid request is chosen. -/
theorem diskScheduleLocked_sstf {q : DiskQueue} (hpol : q.policy = .sstf) (hm : Measured q)
    (i : Fin maxDiskReqs) : diskScheduleLocked q = some i ↔
      (q.reqs i).valid = true ∧ ∀ j, (q.reqs j).valid = true → requestKey q i ≤ requestKey q j := by
  have hscan : diskScheduleLocked q =
      ((List.finRange maxDiskReqs).filter fun i => (q.reqs i).valid).argmin (requestKey q) := by
    unfold diskScheduleLocked
    rw [hpol]
    exact sstfTurn_foldl hm _ _ (pairwise_lt_finRange _) (fun _ h => nomatch h)
      fun _ h => nomatch h
  rw [hscan, argmin_eq_some_iff]
  simp only [mem_filter, mem_finRange, true_and]
  constructor
  · rintro ⟨hv, hle, -⟩
    exact ⟨hv, hle⟩
  · rintro ⟨hv, hle⟩
    refine ⟨hv, hle, ?_⟩
    intro j hj hji
    rw [requestKey_injective (le_antisymm (hle j hj) hji)]

/-! ## The choice -/

/-- **FCFS** takes the lowest valid index. -/
theorem diskScheduleLocked_fcfs {q : DiskQueue} (hpol : q.policy = .fcfs) (i : Fin maxDiskReqs) :
    diskScheduleLocked q = some i ↔
      (q.reqs i).valid = true ∧ ∀ j, j < i → (q.reqs j).valid = false := by
  unfold diskScheduleLocked
  rw [hpol]
  constructor
  · intro h
    exact ⟨firstIdx_holds h, fun j hj => firstIdx_before h hj⟩
  · rintro ⟨hv, hbefore⟩
    exact firstIdx_eq_some_of hv hbefore

/-- Nothing is chosen if and only if nothing waits. -/
theorem diskScheduleLocked_none (q : DiskQueue) :
    diskScheduleLocked q = none ↔ ∀ i, (q.reqs i).valid = false := by
  constructor
  · intro h i
    by_contra hv
    obtain ⟨j, hj⟩ := diskScheduleLocked_isSome (q := q) (i := i) (by simpa using hv)
    rw [h] at hj
    cases hj
  · intro h
    cases hs : diskScheduleLocked q with
    | none => rfl
    | some i =>
      have := diskScheduleLocked_valid hs
      rw [h i] at this
      cases this

/-- **The scheduler's choice.** There is none exactly when no request is valid; FCFS takes the lowest
valid index, and SSTF the valid index that is least by distance, priority and index. -/
theorem diskScheduleLocked_choice (q : DiskQueue)
    (hreqs : ∀ i, (q.reqs i).valid = true → OnDisk (q.reqs i).blockno)
    (hhead : 2 ^ 14 - 2 ^ 31 ≤ q.head.toInt) :
    (diskScheduleLocked q = none ↔ ∀ i, (q.reqs i).valid = false) ∧
    (q.policy = .fcfs → ∀ i, diskScheduleLocked q = some i ↔
      (q.reqs i).valid = true ∧ ∀ j, j < i → (q.reqs j).valid = false) ∧
    (q.policy = .sstf → ∀ i, diskScheduleLocked q = some i ↔
      (q.reqs i).valid = true ∧ ∀ j, (q.reqs j).valid = true → requestKey q i ≤ requestKey q j) :=
  ⟨diskScheduleLocked_none q, diskScheduleLocked_fcfs,
    fun hpol => diskScheduleLocked_sstf hpol (measured_of_onDisk hreqs hhead)⟩

/-- Two requests at the same distance on both sides of the head: the priority decides. -/
def twoSided : DiskQueue where
  reqs i := if i = 3 then ⟨true, 90, true, some 0, 2⟩ else if i = 7 then ⟨true, 110, true, some 1, 1⟩
    else ⟨false, 0, false, none, 0⟩
  head := 100
  policy := .sstf
  totalLatency := 0
  totalRequests := 0

/-- Of the two, SSTF takes the one with the better priority. -/
theorem diskScheduleLocked_choice_twoSided : diskScheduleLocked twoSided = some 7 := by
  have hvalid : ∀ i, (twoSided.reqs i).valid = true → i = 3 ∨ i = 7 := by decide
  have hreqs : ∀ i, (twoSided.reqs i).valid = true → OnDisk (twoSided.reqs i).blockno := by
    intro i hi
    rcases hvalid i hi with rfl | rfl
    · exact ⟨by decide, by decide⟩
    · exact ⟨by decide, by decide⟩
  apply ((diskScheduleLocked_choice twoSided hreqs (by decide)).2.2 rfl 7).mpr
  refine ⟨by decide, ?_⟩
  intro j hj
  rcases hvalid j hj with rfl | rfl
  · decide
  · exact le_rfl

end Xv6.SwapDisk
