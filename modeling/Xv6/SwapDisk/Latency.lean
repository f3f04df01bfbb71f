import Mathlib.Data.List.Infix
import Mathlib.Tactic.Ring
import Xv6.SwapDisk.Policy
import Xv6.SwapDisk.Select

/-!
# The average latency

Every request adds its seek distance and the rotational delay to `total_latency`, and the average is
that total over the number of requests. Both totals are `int`s that only ever grow, so modulo `2 ^ 32`
they are what they should be (`serve_foldl_totals`), and the average is right until the sum no longer
fits. The request that takes it past `2 ^ 31` makes the average negative.
-/

namespace Xv6.SwapDisk

open List Int32

/-! ## What the totals should be -/

/-- The seek distances and rotational delays of a sequence of requests, from the head `h` on. -/
def travel (h : ℤ) : List Submission → ℤ
  | [] => 0
  | r :: rs => |r.blockno.toInt - h| + 5 + travel r.blockno.toInt rs

/-- The largest seek distance. -/
def maxSeek (h : ℤ) : List Submission → ℤ
  | [] => 0
  | r :: rs => max |r.blockno.toInt - h| (maxSeek r.blockno.toInt rs)

theorem travel_append (rs rs' : List Submission) : ∀ h : ℤ,
    travel h (rs ++ rs') = travel h rs + travel ((rs.map (·.blockno.toInt)).getLastD h) rs' := by
  induction rs with
  | nil => intro h; simp [travel]
  | cons r rs ih =>
    intro h
    rw [cons_append, travel, travel, ih, map_cons, getLastD_cons]
    ring

/-- Every request costs the rotational delay. -/
theorem five_mul_le_travel (rs : List Submission) : ∀ h : ℤ, 5 * (rs.length : ℤ) ≤ travel h rs := by
  induction rs with
  | nil => intro h; simp [travel]
  | cons r rs ih =>
    intro h
    have := ih r.blockno.toInt
    have := abs_nonneg (r.blockno.toInt - h)
    rw [travel, length_cons]
    push_cast
    omega

/-- The longest seek bounds the cost of every request. -/
theorem travel_le (rs : List Submission) : ∀ h : ℤ,
    travel h rs ≤ (5 + maxSeek h rs) * (rs.length : ℤ) := by
  induction rs with
  | nil => intro h; simp [travel]
  | cons r rs ih =>
    intro h
    have hrest := ih r.blockno.toInt
    have h₁ := le_max_left |r.blockno.toInt - h| (maxSeek r.blockno.toInt rs)
    have h₂ := le_max_right |r.blockno.toInt - h| (maxSeek r.blockno.toInt rs)
    rw [travel, maxSeek, length_cons]
    generalize max |r.blockno.toInt - h| (maxSeek r.blockno.toInt rs) = m at h₁ h₂ ⊢
    have hmul : (5 + maxSeek r.blockno.toInt rs) * (rs.length : ℤ) ≤ (5 + m) * (rs.length : ℤ) :=
      Int.mul_le_mul_of_nonneg_right (by omega) (Int.natCast_nonneg _)
    push_cast
    rw [Int.mul_add, Int.mul_one]
    omega

/-! ## The totals -/

/-- Distances on the disk do not wrap. -/
theorem seekDistance_onDisk {a b : Int32} (ha : OnDisk a) (hb : OnDisk b) :
    (seekDistance a b).toInt = |a.toInt - b.toInt| := by
  obtain ⟨ha₀, ha₁⟩ := ha
  obtain ⟨hb₀, hb₁⟩ := hb
  apply seekDistance_toInt
  rw [abs_lt]
  norm_num at *
  omega

/-- **The totals** count modulo `2 ^ 32`. -/
theorem serve_foldl_totals (rs : List Submission) : ∀ a : Accounts, OnDisk a.head →
    (∀ r ∈ rs, OnDisk r.blockno) →
    (rs.foldl Accounts.serve a).totalLatency.toInt =
      (a.totalLatency.toInt + travel a.head.toInt rs).bmod (2 ^ 32) ∧
    (rs.foldl Accounts.serve a).totalRequests.toInt =
      (a.totalRequests.toInt + (rs.length : ℤ)).bmod (2 ^ 32) := by
  induction rs with
  | nil =>
    intro a _ _
    simp only [foldl_nil, travel, length_nil, Nat.cast_zero, add_zero]
    exact ⟨(toInt_bmod _).symm, (toInt_bmod _).symm⟩
  | cons r rs ih =>
    intro a ha hrs
    have hr := hrs r mem_cons_self
    obtain ⟨hl, hn⟩ := ih (a.serve r) hr fun r' h => hrs r' (mem_cons_of_mem _ h)
    have hlat : (a.serve r).totalLatency.toInt =
        (a.totalLatency.toInt + (|r.blockno.toInt - a.head.toInt| + 5)).bmod (2 ^ 32) := by
      show (a.totalLatency + (seekDistance r.blockno a.head + rotationalDelay)).toInt = _
      rw [toInt_add, toInt_add, seekDistance_onDisk hr ha, Int.add_bmod_bmod]
      rfl
    have hreq : (a.serve r).totalRequests.toInt = (a.totalRequests.toInt + 1).bmod (2 ^ 32) := by
      show (a.totalRequests + 1).toInt = _
      rw [toInt_add]
      rfl
    rw [foldl_cons, hl, hn, hlat, hreq, Int.bmod_add_bmod, Int.bmod_add_bmod, travel,
      length_cons]
    refine ⟨?_, ?_⟩
    · show (a.totalLatency.toInt + _ + travel r.blockno.toInt rs).bmod (2 ^ 32) = _
      congr 1
      ring
    · push_cast
      congr 1
      ring

/-- `disk_get_avg_latency`, from the totals. -/
def Accounts.average (a : Accounts) : Int32 :=
  if a.totalRequests = 0 then 0 else a.totalLatency / a.totalRequests

theorem serve_average (a : Accounts) (r : Submission) :
    ((a.serve r).stats r.proc).avgDiskLatency = (a.serve r).average := by
  unfold Accounts.serve
  dsimp only
  rw [Function.update_self]
  rfl

/-- After a sequence of calls: the totals, and the average of the last process to be served. -/
theorem execOps_totals (ops : List Op) (h : ∀ r ∈ ops.filterMap Op.submission, OnDisk r.blockno) :
    ∃ q stats, execOps ops (swapDiskInit.queue, swapDiskInit.stats) = .ok (q, stats) ∧
      q.totalLatency.toInt = (travel 0 (ops.filterMap Op.submission)).bmod (2 ^ 32) ∧
      q.totalRequests.toInt = ((ops.filterMap Op.submission).length : ℤ).bmod (2 ^ 32) ∧
      ∀ r, (ops.filterMap Op.submission).getLast? = some r →
        (stats r.proc).avgDiskLatency = diskGetAvgLatency q := by
  obtain ⟨q, stats, hrun, -, hacc⟩ := execOps_accounts ops swapDiskInit.stats swapDiskInit_idle
  have hhead : OnDisk (accounts swapDiskInit.queue swapDiskInit.stats).head := ⟨by decide, by decide⟩
  obtain ⟨hl, hn⟩ := serve_foldl_totals _ _ hhead h
  have hzero : (accounts swapDiskInit.queue swapDiskInit.stats).totalLatency.toInt = 0 ∧
      (accounts swapDiskInit.queue swapDiskInit.stats).totalRequests.toInt = 0 ∧
      (accounts swapDiskInit.queue swapDiskInit.stats).head.toInt = 0 := by decide
  rw [← hacc, hzero.1, hzero.2.2, zero_add] at hl
  rw [← hacc, hzero.2.1, zero_add] at hn
  refine ⟨q, stats, hrun, hl, hn, ?_⟩
  intro r hr
  obtain ⟨rs, hrs⟩ := List.getLast?_eq_some_iff.mp hr
  rw [hrs, foldl_append, foldl_cons, foldl_nil] at hacc
  show ((accounts q stats).stats r.proc).avgDiskLatency = (accounts q stats).average
  rw [hacc, serve_average]

/-! ## The law -/

/-- **The averages are right** after the requests `rs`: the one of the disk is the mean, and it and the
one stored in the last process are at least the rotational delay and at most that plus the largest seek
distance. -/
structure LatencyOk (rs : List Submission) (q : DiskQueue) (stats : ProcId → DiskStats) : Prop where
  mean : (diskGetAvgLatency q).toInt = travel 0 rs / (rs.length : ℤ)
  ge : 5 ≤ (diskGetAvgLatency q).toInt
  le : (diskGetAvgLatency q).toInt ≤ 5 + maxSeek 0 rs
  stored : ∀ r, rs.getLast? = some r → 5 ≤ (stats r.proc).avgDiskLatency.toInt ∧
    (stats r.proc).avgDiskLatency.toInt ≤ 5 + maxSeek 0 rs

theorem bmod_small {x : ℤ} (h₀ : 0 ≤ x) (h : x < 2 ^ 31) : x.bmod (2 ^ 32) = x :=
  Int.bmod_eq_of_le (by norm_num; omega) (by norm_num; omega)

/-- As long as the sum fits, the averages are right. -/
theorem latencyOk_of_lt {rs : List Submission} {q : DiskQueue} {stats : ProcId → DiskStats}
    (hne : rs ≠ []) (hfit : travel 0 rs < 2 ^ 31)
    (hl : q.totalLatency.toInt = (travel 0 rs).bmod (2 ^ 32))
    (hn : q.totalRequests.toInt = (rs.length : ℤ).bmod (2 ^ 32))
    (hs : ∀ r, rs.getLast? = some r → (stats r.proc).avgDiskLatency = diskGetAvgLatency q) :
    LatencyOk rs q stats := by
  have hpos : (0 : ℤ) < rs.length := by exact_mod_cast length_pos_iff.mpr hne
  have hlow := five_mul_le_travel rs 0
  have hhigh := travel_le rs 0
  rw [bmod_small (by omega) hfit] at hl
  rw [bmod_small (by omega) (by omega)] at hn
  have hmean : (diskGetAvgLatency q).toInt = travel 0 rs / (rs.length : ℤ) := by
    have hne0 : q.totalRequests ≠ 0 := by
      intro h0
      rw [h0, toInt_zero] at hn
      omega
    have hmin : q.totalLatency ≠ Int32.minValue := by
      intro h0
      rw [h0] at hl
      have : Int32.minValue.toInt = -2147483648 := by decide
      omega
    unfold diskGetAvgLatency
    rw [if_neg hne0, toInt_div_of_ne_left _ _ hmin, hl, hn, Int.tdiv_eq_ediv_of_nonneg (by omega)]
  have hge : 5 ≤ (diskGetAvgLatency q).toInt := by
    rw [hmean, Int.le_ediv_iff_mul_le hpos]
    exact hlow
  have hle : (diskGetAvgLatency q).toInt ≤ 5 + maxSeek 0 rs := by
    rw [hmean]
    exact Int.ediv_le_of_le_mul hpos hhigh
  refine ⟨hmean, hge, hle, ?_⟩
  intro r hr
  rw [hs r hr]
  exact ⟨hge, hle⟩

/-- The sum has just passed `2 ^ 31`: the average is not positive. -/
theorem avgLatency_of_ge {rs : List Submission} {q : DiskQueue} (hge : 2 ^ 31 ≤ travel 0 rs)
    (hlt : travel 0 rs < 2 ^ 32) (hlen : (rs.length : ℤ) < 2 ^ 31)
    (hl : q.totalLatency.toInt = (travel 0 rs).bmod (2 ^ 32))
    (hn : q.totalRequests.toInt = (rs.length : ℤ).bmod (2 ^ 32)) :
    (diskGetAvgLatency q).toInt ≤ 0 := by
  rw [bmod_small (by omega) hlen] at hn
  have hneg : q.totalLatency.toInt < 0 := by
    rw [hl, Int.bmod_eq_emod, Int.emod_eq_of_lt (by omega) (by exact_mod_cast hlt)]
    split
    · push_cast
      omega
    · next h' =>
        push_cast at h'
        omega
  unfold diskGetAvgLatency
  split
  · decide
  · have hm1 : q.totalRequests ≠ -1 := by
      intro h0
      rw [h0] at hn
      have : (-1 : Int32).toInt = -1 := by decide
      omega
    rw [toInt_div_of_ne_right _ _ hm1]
    rw [show q.totalLatency.toInt = -(-q.totalLatency.toInt) by omega, Int.neg_tdiv,
      Int.tdiv_eq_ediv_of_nonneg (by omega)]
    have : 0 ≤ -q.totalLatency.toInt / q.totalRequests.toInt :=
      Int.ediv_nonneg (by omega) (by rw [hn]; omega)
    omega

theorem last_onDisk {rs : List Submission} (h : ∀ r ∈ rs, OnDisk r.blockno) :
    0 ≤ (rs.map (·.blockno.toInt)).getLastD 0 ∧
      (rs.map (·.blockno.toInt)).getLastD 0 < diskBlocksPerDisk := by
  rcases eq_nil_or_concat rs with rfl | ⟨rs', r, rfl⟩
  · simp
  · rw [concat_eq_append, map_append, map_singleton, getLastD_concat]
    exact h r (by simp)

/-- What one more request adds. -/
theorem travel_snoc_le {rs : List Submission} {r : Submission} (h : ∀ x ∈ rs, OnDisk x.blockno)
    (hr : OnDisk r.blockno) : travel 0 (rs ++ [r]) ≤ travel 0 rs + 16388 := by
  obtain ⟨h₀, h₁⟩ := last_onDisk h
  obtain ⟨hr₀, hr₁⟩ := hr
  rw [travel_append, travel, travel]
  have : |r.blockno.toInt - (rs.map (·.blockno.toInt)).getLastD 0| ≤ 16383 := by
    rw [abs_le]
    norm_num at *
    omega
  omega

/-- In a sequence whose sum does not fit, the averages are wrong at some point. -/
theorem exists_not_latencyOk (ops : List Op) (h : ∀ r ∈ ops.filterMap Op.submission, OnDisk r.blockno)
    (hge : 2 ^ 31 ≤ travel 0 (ops.filterMap Op.submission)) :
    ∃ pre, pre <+: ops ∧ pre.filterMap Op.submission ≠ [] ∧ ∃ q stats,
      execOps pre (swapDiskInit.queue, swapDiskInit.stats) = .ok (q, stats) ∧
        (diskGetAvgLatency q).toInt ≤ 0 := by
  -- the first prefix whose sum does not fit
  induction ops using List.reverseRecOn with
  | nil => exact absurd hge (by simp [travel])
  | append_singleton ops op ih =>
    by_cases hbefore : 2 ^ 31 ≤ travel 0 (ops.filterMap Op.submission)
    · obtain ⟨pre, hpre, hrest⟩ := ih (fun r hr => h r (by simp [hr])) hbefore
      exact ⟨pre, hpre.trans (prefix_append _ _), hrest⟩
    · cases hsub : op.submission with
      | none =>
        rw [filterMap_append, filterMap_cons_none hsub, filterMap_nil,
          append_nil] at hge
        exact absurd hge hbefore
      | some r =>
        have heq : (ops ++ [op]).filterMap Op.submission = ops.filterMap Op.submission ++ [r] := by
          rw [filterMap_append, filterMap_cons_some hsub, filterMap_nil]
        obtain ⟨q, stats, hrun, hl, hn, -⟩ := execOps_totals _ h
        refine ⟨_, prefix_refl _, by rw [heq]; simp, q, stats, hrun, ?_⟩
        rw [heq] at hge hl hn h
        have hon : ∀ x ∈ ops.filterMap Op.submission, OnDisk x.blockno := fun x hx =>
          h x (mem_append_left _ hx)
        have hstep := travel_snoc_le hon (h r (by simp))
        have hlen := five_mul_le_travel (ops.filterMap Op.submission ++ [r]) 0
        exact avgLatency_of_ge hge (by omega) (by omega) hl hn

theorem travel_prefix_le {rs rs' : List Submission} (h : rs <+: rs') : travel 0 rs ≤ travel 0 rs' := by
  obtain ⟨t, rfl⟩ := h
  have := five_mul_le_travel t ((rs.map (·.blockno.toInt)).getLastD 0)
  rw [travel_append]
  omega

/-- **The latency statistics** of a sequence of calls are right after each of its requests exactly when
the sum of all latencies is less than `2 ^ 31`. -/
theorem latency_statistics_iff (ops : List Op)
    (h : ∀ r ∈ ops.filterMap Op.submission, OnDisk r.blockno) :
    (∀ pre, pre <+: ops → pre.filterMap Op.submission ≠ [] → ∃ q stats,
      execOps pre (swapDiskInit.queue, swapDiskInit.stats) = .ok (q, stats) ∧
        LatencyOk (pre.filterMap Op.submission) q stats) ↔
    travel 0 (ops.filterMap Op.submission) < 2 ^ 31 := by
  constructor
  · intro hok
    by_contra hge
    obtain ⟨pre, hpre, hne, q, stats, hrun, hneg⟩ := exists_not_latencyOk ops h (not_lt.mp hge)
    obtain ⟨q', stats', hrun', hlat⟩ := hok pre hpre hne
    rw [hrun] at hrun'
    cases hrun'
    have := hlat.ge
    omega
  · intro hfit pre hpre hne
    have hsub := hpre.filterMap Op.submission
    obtain ⟨q, stats, hrun, hl, hn, hs⟩ := execOps_totals pre fun r hr => h r (hsub.subset hr)
    exact ⟨q, stats, hrun,
      latencyOk_of_lt hne (lt_of_le_of_lt (travel_prefix_le hsub) hfit) hl hn hs⟩

/-- One request, for the block 3. -/
theorem latency_statistics_iff_one : ∃ q stats,
    execOps [.call ⟨0, 0⟩ 3 true] (swapDiskInit.queue, swapDiskInit.stats) = .ok (q, stats) ∧
      LatencyOk [⟨3, true, 0⟩] q stats := by
  have hreq : ∀ r ∈ [Op.call ⟨0, 0⟩ 3 true].filterMap Op.submission, OnDisk r.blockno := by
    intro r hr
    rw [mem_singleton.mp hr]
    exact ⟨by decide, by decide⟩
  exact (latency_statistics_iff [.call ⟨0, 0⟩ 3 true] hreq).mpr (by decide) _ (prefix_refl _)
    (by simp [Op.submission])

/-! ## A long uptime -/

/-- The head moves over the whole disk and back, `n` times. -/
def swings (n : Nat) : List Op :=
  (List.replicate n [Op.call ⟨0, 0⟩ 16383 true, Op.call ⟨0, 0⟩ 0 true]).flatten

theorem swings_requests (n : Nat) : (swings n).filterMap Op.submission =
    (List.replicate n [(⟨16383, true, 0⟩ : Submission), ⟨0, true, 0⟩]).flatten := by
  induction n with
  | zero => rfl
  | succ n ih =>
    unfold swings at ih ⊢
    rw [replicate_succ, replicate_succ, flatten_cons, flatten_cons,
      filterMap_append, ih]
    rfl

theorem swings_onDisk (n : Nat) : ∀ r ∈ (swings n).filterMap Op.submission, OnDisk r.blockno := by
  intro r hr
  rw [swings_requests, mem_flatten] at hr
  obtain ⟨l, hl, hr⟩ := hr
  rw [eq_of_mem_replicate hl, mem_cons, mem_singleton] at hr
  rcases hr with rfl | rfl
  · exact ⟨by decide, by decide⟩
  · exact ⟨by decide, by decide⟩

theorem travel_swings (n : Nat) : travel 0 ((swings n).filterMap Op.submission) = 32776 * (n : ℤ) := by
  rw [swings_requests]
  induction n with
  | zero => rfl
  | succ n ih =>
    have hone : travel 0 [(⟨16383, true, 0⟩ : Submission), ⟨0, true, 0⟩] = 32776 := by decide
    have hlast : ([(⟨16383, true, 0⟩ : Submission), ⟨0, true, 0⟩].map (·.blockno.toInt)).getLastD 0 = 0 := by
      decide
    rw [replicate_succ, flatten_cons, travel_append, hone, hlast, ih]
    push_cast
    ring

/-- **The sum overflows**: after 65536 swings of the head the average that is reported at some point is
not positive. -/
theorem latency_overflow : ∃ pre, pre <+: swings 65536 ∧ pre.filterMap Op.submission ≠ [] ∧
    ∃ q stats, execOps pre (swapDiskInit.queue, swapDiskInit.stats) = .ok (q, stats) ∧
      (diskGetAvgLatency q).toInt ≤ 0 ∧ ¬ LatencyOk (pre.filterMap Op.submission) q stats := by
  obtain ⟨pre, hpre, hne, q, stats, hrun, hneg⟩ := exists_not_latencyOk (swings 65536)
    (swings_onDisk _) (by rw [travel_swings]; norm_num)
  refine ⟨pre, hpre, hne, q, stats, hrun, hneg, ?_⟩
  intro hlat
  have := hlat.ge
  omega

end Xv6.SwapDisk
