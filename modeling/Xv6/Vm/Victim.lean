import Mathlib.Algebra.Group.Fin.Basic
import Xv6.Vm.AllocSpec

/-!
# The victim of an eviction

Which frame `clock_evict` of `kernel/kalloc.c` chooses. Its loop makes two rounds over the frame table.
In the first it considers the entries whose reference bit is clear and clears the other bits, in the
second it considers all of them; of those considered it keeps the first one with the highest level. So
the victim is the first maximum of a list, and this list is the eligible entries without a reference
bit followed by all eligible entries, both in the order of the clock.
-/

namespace Xv6

open TraceM Function List

/-! ## Eligible entries and their order -/

namespace Kernel

variable {D : Type} (k : Kernel D) (me : ProcId) (i : Fin maxFrames)

/-- The page-table entry a frame-table entry names. -/
def frameEntry : Option Pte :=
  (k.frametable i).proc.bind fun p => k.tables.entry (k.proc p).pagetable (vpn (k.frametable i).va)

/-- The entry has a process that does not run on another hart, and its page-table entry is valid. -/
def eligible : Bool :=
  (match (k.frametable i).proc with
    | none => false
    | some p => !k.runsElsewhere me p) && (k.frameEntry i).any fun e => e.getLsbD pteV

/-- The reference bit. -/
def referenced : Bool := (k.frameEntry i).any fun e => e.getLsbD pteA

/-- `cur_queue_lvl` of the process of the entry. -/
def level : Int32 := ((k.frametable i).proc.map fun p => (k.proc p).curQueueLvl).getD 0

/-- How far the hand has to turn to get to the entry. -/
def distance : Nat := (i - k.clockHand).val

/-- The order of the victims: a higher level first, then a clear reference bit, then the order of the
clock. -/
def Preferred (i j : Fin maxFrames) : Prop :=
  k.level j < k.level i ∨ (k.level j = k.level i ∧
    ((k.referenced i = false ∧ k.referenced j = true) ∨
      (k.referenced i = k.referenced j ∧ k.distance i ≤ k.distance j)))

/-- The entries with a process that `clock_evict` looks at can be walked to, and different entries name
different page-table entries. -/
structure NamesPtes : Prop where
  walkable : ∀ i p, (k.frametable i).proc = some p → k.runsElsewhere me p = false →
    (k.frametable i).va < maxva ∧ ∃ t, k.tables (k.proc p).pagetable = some t
  distinct : ∀ i j p q, (k.frametable i).proc = some p → (k.frametable j).proc = some q →
    (k.proc p).pagetable = (k.proc q).pagetable →
    vpn (k.frametable i).va = vpn (k.frametable j).va → i = j

end Kernel

/-! ## The first maximum -/

section FirstMaximum

variable {D : Type} (k : Kernel D)

/-- What the clock does with an entry it considers. -/
def consider (best : Best) (i : Fin maxFrames) : Best :=
  if best.idx = none ∨ best.level < k.level i then ⟨some i, k.level i⟩ else best

variable {k}

/-- `v` is the first entry of `l` with the highest level. -/
def FirstMax (k : Kernel D) (l : List (Fin maxFrames)) (v : Fin maxFrames) : Prop :=
  ∃ pre post, l = pre ++ v :: post ∧ (∀ x ∈ pre, k.level x < k.level v) ∧
    ∀ x ∈ post, k.level x ≤ k.level v

/-- The clock keeps the first of the best entries. -/
theorem foldl_consider_some (l : List (Fin maxFrames)) (v : Fin maxFrames) :
    ∃ w, FirstMax k (v :: l) w ∧ l.foldl (consider k) ⟨some v, k.level v⟩ = ⟨some w, k.level w⟩ := by
  induction l generalizing v with
  | nil => exact ⟨v, ⟨[], [], rfl, fun _ h => absurd h not_mem_nil, fun _ h => absurd h not_mem_nil⟩, rfl⟩
  | cons a l ih =>
    rw [foldl_cons]
    by_cases hlt : k.level v < k.level a
    · -- `a` takes the place of `v`
      have hstep : consider k ⟨some v, k.level v⟩ a = ⟨some a, k.level a⟩ := if_pos (.inr hlt)
      rw [hstep]
      obtain ⟨w, ⟨pre, post, hl, hpre, hpost⟩, hfold⟩ := ih a
      refine ⟨w, ⟨v :: pre, post, by rw [hl]; rfl, ?_, hpost⟩, hfold⟩
      intro x hx
      rcases mem_cons.mp hx with rfl | hx
      · cases pre with
        | nil =>
          cases hl
          exact hlt
        | cons b pre =>
          cases hl
          exact Int32.lt_trans hlt (hpre a mem_cons_self)
      · exact hpre x hx
    · have hstep : consider k ⟨some v, k.level v⟩ a = ⟨some v, k.level v⟩ :=
        if_neg (not_or.mpr ⟨Option.some_ne_none v, hlt⟩)
      rw [hstep]
      obtain ⟨w, ⟨pre, post, hl, hpre, hpost⟩, hfold⟩ := ih v
      have hle := Int32.not_lt.mp hlt
      cases pre with
      | nil =>
        cases hl
        refine ⟨v, ⟨[], a :: l, rfl, hpre, ?_⟩, hfold⟩
        intro x hx
        rcases mem_cons.mp hx with rfl | hx
        · exact hle
        · exact hpost x hx
      | cons b pre =>
        cases hl
        refine ⟨w, ⟨v :: a :: pre, post, rfl, ?_, hpost⟩, hfold⟩
        have hv := hpre v mem_cons_self
        intro x hx
        rcases mem_cons.mp hx with rfl | hx
        · exact hv
        · rcases mem_cons.mp hx with rfl | hx
          · exact Int32.lt_of_le_of_lt hle hv
          · exact hpre x (mem_cons_of_mem _ hx)

/-- The loop keeps the first maximum of what it considers. -/
theorem foldl_consider {l : List (Fin maxFrames)} (h : l ≠ []) :
    ∃ v, FirstMax k l v ∧ l.foldl (consider k) ⟨none, 0⟩ = ⟨some v, k.level v⟩ := by
  cases l with
  | nil => exact absurd rfl h
  | cons a l => exact foldl_consider_some l a

end FirstMaximum

/-! ## Two rounds of the clock -/

/-- The entries under the hand in the next `n` turns. -/
def turns (h : Fin maxFrames) : Nat → List (Fin maxFrames)
  | 0 => []
  | n + 1 => h :: turns (h + 1) n

theorem turns_add (h : Fin maxFrames) (m n : Nat) :
    turns h (m + n) = turns h m ++ turns (h + Fin.ofNat maxFrames m) n := by
  induction m generalizing h with
  | zero =>
    rw [Nat.zero_add]
    show turns h n = turns (h + 0) n
    rw [add_zero]
  | succ m ih =>
    rw [Nat.succ_add, turns, turns, ih, cons_append]
    have hhand : h + 1 + Fin.ofNat maxFrames m = h + Fin.ofNat maxFrames (m + 1) := by
      rw [add_assoc, add_comm 1]
      congr 1
      apply Fin.ext
      simp [Fin.val_add, Fin.ofNat]
    rw [hhand]

/-- In one round the hand gets to the entries in the order of their distance. -/
theorem turns_sorted (h : Fin maxFrames) (n : Nat) :
    ∀ t, t + n ≤ maxFrames →
      (turns (h + Fin.ofNat maxFrames t) n).Pairwise (fun i j => (i - h).val < (j - h).val) ∧
      ∀ i ∈ turns (h + Fin.ofNat maxFrames t) n, t ≤ (i - h).val := by
  induction n with
  | zero => exact fun t _ => ⟨List.Pairwise.nil, fun i hi => absurd hi not_mem_nil⟩
  | succ n ih =>
    intro t ht
    have hhand : h + Fin.ofNat maxFrames t + 1 = h + Fin.ofNat maxFrames (t + 1) := by
      rw [add_assoc]
      congr 1
      apply Fin.ext
      simp [Fin.val_add, Fin.ofNat]
    obtain ⟨hsorted, hle⟩ := ih (t + 1) (by omega)
    have hval : (h + Fin.ofNat maxFrames t - h).val = t := by
      rw [add_sub_cancel_left]
      exact Nat.mod_eq_of_lt (by omega)
    rw [turns, hhand]
    refine ⟨pairwise_cons.mpr ⟨fun j hj => ?_, hsorted⟩, ?_⟩
    · rw [hval]
      exact hle j hj
    · intro i hi
      rcases mem_cons.mp hi with rfl | hi
      · rw [hval]
      · exact (hle i hi).trans' (Nat.le_succ t)

/-- The entries that the hand meets in `n` turns. -/
theorem mem_turns {h i : Fin maxFrames} {n : Nat} (hn : n ≤ maxFrames) :
    i ∈ turns h n ↔ (i - h).val < n := by
  induction n generalizing h with
  | zero => simp [turns]
  | succ n ih =>
    have hi := i.isLt
    have hh := h.isLt
    rw [turns, mem_cons, ih (Nat.le_of_succ_le hn)]
    unfold maxFrames at hi hh hn
    rw [Fin.ext_iff, Fin.sub_def, Fin.sub_def, Fin.val_add]
    show i.val = h.val ∨ (64 - (h.val + 1) % 64 + i.val) % 64 < n ↔ (64 - h.val + i.val) % 64 < n + 1
    omega

/-- One round. -/
abbrev lap (h : Fin maxFrames) : List (Fin maxFrames) := turns h maxFrames

theorem turns_two_laps (h : Fin maxFrames) : turns h (maxFrames * 2) = lap h ++ lap h := by
  rw [Nat.mul_two, turns_add]
  have hround : h + Fin.ofNat maxFrames maxFrames = h := by
    rw [show Fin.ofNat maxFrames maxFrames = 0 from rfl, add_zero]
  rw [hround]

theorem mem_lap (h i : Fin maxFrames) : i ∈ lap h := (mem_turns le_rfl).mpr (i - h).isLt

theorem lap_sorted (h : Fin maxFrames) :
    (lap h).Pairwise (fun i j => (i - h).val < (j - h).val) := by
  have hsorted := (turns_sorted h maxFrames 0 (by omega)).1
  rw [show Fin.ofNat maxFrames 0 = 0 from rfl, add_zero] at hsorted
  exact hsorted

theorem lap_nodup (h : Fin maxFrames) : (lap h).Nodup :=
  (lap_sorted h).imp fun hlt heq => by rw [heq] at hlt; exact lt_irrefl _ hlt

section Rounds

variable {D : Type} {k k' : Kernel D} {me : ProcId} {best : Best}

/-- What a turn does: `x.1` says which reference bits were cleared, `x.2` is the best entry so far. -/
def turn (k : Kernel D) (me : ProcId) (x : (Fin maxFrames → Bool) × Best) (i : Fin maxFrames) :
    (Fin maxFrames → Bool) × Best :=
  if k.eligible me i then
    if k.referenced i && !x.1 i then (update x.1 i true, x.2) else (x.1, consider k x.2 i)
  else x

/-- In the first round the entries without a reference bit are considered. -/
theorem foldl_turn_first {l : List (Fin maxFrames)} (hl : l.Nodup) {C : Fin maxFrames → Bool}
    (hC : ∀ i ∈ l, C i = false) :
    (l.foldl (turn k me) (C, best)).2 =
        (l.filter fun i => k.eligible me i && !k.referenced i).foldl (consider k) best ∧
      ∀ i, (l.foldl (turn k me) (C, best)).1 i =
        (C i || (decide (i ∈ l) && (k.eligible me i && k.referenced i))) := by
  induction l generalizing C best with
  | nil => exact ⟨rfl, fun i => by simp⟩
  | cons a l ih =>
    obtain ⟨ha, hl⟩ := nodup_cons.mp hl
    have hCa := hC a mem_cons_self
    rw [foldl_cons]
    by_cases he : k.eligible me a
    · by_cases hr : k.referenced a
      · have hturn : turn k me (C, best) a = (update C a true, best) := by
          simp [turn, he, hr, hCa]
        rw [hturn]
        obtain ⟨h₁, h₂⟩ := @ih best hl (update C a true) (by
          intro i hi
          rw [update_of_ne (by rintro rfl; exact ha hi)]
          exact hC i (mem_cons_of_mem _ hi))
        refine ⟨by rw [h₁]; simp [he, hr], fun i => ?_⟩
        rw [h₂]
        by_cases hia : i = a
        · simp [hia, he, hr]
        · simp [hia]
      · have hturn : turn k me (C, best) a = (C, consider k best a) := by
          simp [turn, he, hr]
        rw [hturn]
        obtain ⟨h₁, h₂⟩ := @ih (consider k best a) hl C
          (fun i hi => hC i (mem_cons_of_mem _ hi))
        refine ⟨by rw [h₁]; simp [he, hr], fun i => ?_⟩
        rw [h₂]
        by_cases hia : i = a
        · simp [hia, hr]
        · simp [hia]
    · have hturn : turn k me (C, best) a = (C, best) := by
        simp [turn, he]
      rw [hturn]
      obtain ⟨h₁, h₂⟩ := @ih best hl C (fun i hi => hC i (mem_cons_of_mem _ hi))
      refine ⟨by rw [h₁]; simp [he], fun i => ?_⟩
      rw [h₂]
      by_cases hia : i = a
      · simp [hia, he]
      · simp [hia]

/-- Once the reference bits are cleared, all eligible entries are considered. -/
theorem foldl_turn_second {l : List (Fin maxFrames)} {C : Fin maxFrames → Bool}
    (hC : ∀ i, k.eligible me i = true → k.referenced i = true → C i = true) :
    l.foldl (turn k me) (C, best) = (C, (l.filter (k.eligible me)).foldl (consider k) best) := by
  induction l generalizing best with
  | nil => rfl
  | cons a l ih =>
    rw [foldl_cons]
    by_cases he : k.eligible me a
    · have hturn : turn k me (C, best) a = (C, consider k best a) := by
        by_cases hr : k.referenced a
        · simp [turn, he, hC a he hr]
        · simp [turn, he, hr]
      rw [hturn, ih, filter_cons_of_pos he, foldl_cons]
    · have hturn : turn k me (C, best) a = (C, best) := by
        simp [turn, he]
      rw [hturn, ih, filter_cons_of_neg he]

/-- What the two rounds consider. -/
def considered (k : Kernel D) (me : ProcId) : List (Fin maxFrames) :=
  ((lap k.clockHand).filter fun i => k.eligible me i && !k.referenced i) ++
    (lap k.clockHand).filter (k.eligible me)

/-- **Two rounds** consider each eligible entry without a reference bit, then each eligible entry, and
clear the reference bits of the eligible entries. -/
theorem foldl_turn_laps :
    ((turns k.clockHand (maxFrames * 2)).foldl (turn k me) (fun _ => false, best)).2 =
        (considered k me).foldl (consider k) best ∧
      ∀ i, ((turns k.clockHand (maxFrames * 2)).foldl (turn k me) (fun _ => false, best)).1 i =
        (k.eligible me i && k.referenced i) := by
  obtain ⟨hbest, hcleared⟩ := @foldl_turn_first D k me best (lap k.clockHand)
    (lap_nodup k.clockHand) (fun _ => false) (fun _ _ => rfl)
  obtain ⟨x, hx⟩ : ∃ x, x = (lap k.clockHand).foldl (turn k me) (fun _ => false, best) := ⟨_, rfl⟩
  rw [← hx] at hbest hcleared
  have hC : ∀ i, x.1 i = (k.eligible me i && k.referenced i) := by
    intro i
    rw [hcleared, decide_eq_true (mem_lap k.clockHand i)]
    rfl
  have hsecond := @foldl_turn_second D k me x.2 (lap k.clockHand) x.1
    (fun i he hr => by rw [hC, he, hr]; rfl)
  rw [turns_two_laps, foldl_append, ← hx, hsecond]
  refine ⟨?_, hC⟩
  rw [considered, foldl_append, hbest]

/-- Behind `v` in a sorted list means farther away. -/
theorem distance_le_of_behind {l pre post : List (Fin maxFrames)} {v j : Fin maxFrames}
    (hl : l = pre ++ v :: post) (hsort : l.Pairwise fun i j => k.distance i < k.distance j) (hmem : j ∈ l)
    (hnot : j ∉ pre) : k.distance v ≤ k.distance j := by
  rw [hl] at hsort hmem
  rcases mem_append.mp hmem with hmem | hmem
  · exact absurd hmem hnot
  · rcases mem_cons.mp hmem with rfl | hmem
    · exact le_rfl
    · exact ((pairwise_cons.mp (pairwise_append.mp hsort).2.1).1 j hmem).le

/-- **The first maximum of what is considered is the preferred entry.** -/
theorem FirstMax.preferred {v : Fin maxFrames} (h : FirstMax k (considered k me) v) :
    k.eligible me v = true ∧ ∀ j, k.eligible me j = true → k.Preferred v j := by
  obtain ⟨pre, post, hl, hpre, hpost⟩ := h
  obtain ⟨A, hA⟩ : ∃ A, A = (lap k.clockHand).filter fun i => k.eligible me i && !k.referenced i :=
    ⟨_, rfl⟩
  obtain ⟨B, hB⟩ : ∃ B, B = (lap k.clockHand).filter (k.eligible me) := ⟨_, rfl⟩
  have hmemA : ∀ i, i ∈ A ↔ k.eligible me i = true ∧ k.referenced i = false := by
    intro i
    rw [hA, mem_filter, Bool.and_eq_true, Bool.not_eq_true']
    exact and_iff_right (mem_lap _ i)
  have hmemB : ∀ i, i ∈ B ↔ k.eligible me i = true := by
    intro i
    rw [hB, mem_filter]
    exact and_iff_right (mem_lap _ i)
  have hsortA : A.Pairwise (fun i j => k.distance i < k.distance j) := hA ▸ (lap_sorted _).filter _
  have hsortB : B.Pairwise (fun i j => k.distance i < k.distance j) := hB ▸ (lap_sorted _).filter _
  have hall : A ++ B = pre ++ v :: post := by
    rw [hA, hB]
    exact hl
  have hv : k.eligible me v = true := by
    have hmem : v ∈ A ++ B := by
      rw [hall]
      exact mem_append_right _ mem_cons_self
    rcases mem_append.mp hmem with hmem | hmem
    · exact ((hmemA v).mp hmem).1
    · exact (hmemB v).mp hmem
  refine ⟨hv, fun j hj => ?_⟩
  have hle : k.level j ≤ k.level v := by
    have hmem : j ∈ pre ++ v :: post := by
      rw [← hall]
      exact mem_append_right _ ((hmemB j).mpr hj)
    rcases mem_append.mp hmem with hmem | hmem
    · exact Int32.le_of_lt (hpre j hmem)
    · rcases mem_cons.mp hmem with rfl | hmem
      · exact Int32.le_refl _
      · exact hpost j hmem
  by_cases hlt : k.level j < k.level v
  · exact .inl hlt
  have heq : k.level j = k.level v := Int32.le_antisymm hle (Int32.not_lt.mp hlt)
  refine .inr ⟨heq, ?_⟩
  have hnotpre : j ∉ pre := fun hmem => hlt (hpre j hmem)
  -- if the first round lies before `v`, no entry of the level of `v` had a clear bit
  have href : (∀ i ∈ A, i ∈ pre) → ∀ i, k.eligible me i = true → k.level i = k.level v →
      k.referenced i = true := by
    intro hA' i he hi
    by_contra hr
    have hbelow := hpre i (hA' i ((hmemA i).mpr ⟨he, by simpa using hr⟩))
    rw [hi] at hbelow
    exact Int32.lt_irrefl hbelow
  rcases append_eq_append_iff.mp hall with ⟨as, hpre', hB'⟩ | ⟨bs, hA', hB'⟩
  · -- `v` was found in the second round
    have href := href fun i hi => hpre' ▸ mem_append_left _ hi
    refine .inr ⟨by rw [href v hv rfl, href j hj heq], ?_⟩
    refine distance_le_of_behind hB' hsortB ((hmemB j).mpr hj) fun hmem => hnotpre ?_
    rw [hpre']
    exact mem_append_right _ hmem
  · cases bs with
    | nil =>
      -- the boundary: `v` is the first of the second round
      rw [append_nil] at hA'
      have href := href fun i hi => hA' ▸ hi
      refine .inr ⟨by rw [href v hv rfl, href j hj heq], ?_⟩
      exact distance_le_of_behind hB'.symm hsortB ((hmemB j).mpr hj) not_mem_nil
    | cons b bs =>
      -- `v` was found in the first round: its bit was clear
      cases hB'
      have hvA : v ∈ A := by
        rw [hA']
        exact mem_append_right _ mem_cons_self
      have hvclear := ((hmemA v).mp hvA).2
      by_cases hr : k.referenced j
      · exact .inl ⟨hvclear, hr⟩
      · have hjclear : k.referenced j = false := by simpa using hr
        exact .inr ⟨hvclear.trans hjclear.symm,
          distance_le_of_behind hA' hsortA ((hmemA j).mpr ⟨hj, hjclear⟩) hnotpre⟩

end Rounds

/-! ## The loop -/

section Loop

variable {D : Type} {k k' : Kernel D} {me : ProcId} {best : Best} {C : Fin maxFrames → Bool}

/-- `k'` is `k` in the middle of the loop: the reference bits of the entries in `C` are cleared. -/
structure Swept (k k' : Kernel D) (C : Fin maxFrames → Bool) : Prop where
  same : k' = k.setClock k'.tables k'.clockHand
  kept : ∀ r t, k.tables r = some t → ∃ t', k'.tables r = some t'
  entry : ∀ i, k'.frameEntry i = (k.frameEntry i).map fun e => if C i then e &&& ~~~ bit pteA else e

theorem Swept.refl : Swept k k fun _ => false :=
  ⟨rfl, fun _ t ht => ⟨t, ht⟩, fun i => by cases k.frameEntry i <;> rfl⟩

theorem Swept.frametable (h : Swept k k' C) : k'.frametable = k.frametable := by
  rw [h.same]
  rfl

theorem Swept.proc (h : Swept k k' C) : k'.proc = k.proc := by
  rw [h.same]
  rfl

theorem Swept.runsElsewhere (h : Swept k k' C) (p : ProcId) :
    k'.runsElsewhere me p = k.runsElsewhere me p := by
  unfold Kernel.runsElsewhere
  rw [h.proc]

theorem Swept.advanceHand (h : Swept k k' C) : Swept k k'.advanceHand C where
  same := by
    rw [h.same]
    rfl
  kept := h.kept
  entry := h.entry

theorem Kernel.frameEntry_of_proc {i : Fin maxFrames} {p : ProcId} (hp : (k.frametable i).proc = some p) :
    k.frameEntry i = k.tables.entry (k.proc p).pagetable (vpn (k.frametable i).va) := by
  unfold Kernel.frameEntry
  rw [hp]
  rfl

/-- Only the entry under the hand is touched when its reference bit is cleared. -/
theorem Swept.clearA (h : Swept k k' C) (hn : k.NamesPtes me) {i : Fin maxFrames} {p : ProcId} {e : Pte}
    (hp : (k.frametable i).proc = some p) (he : k.frameEntry i = some e) (hC : C i = false) :
    Swept k (k'.setEntry (k.proc p).pagetable (vpn (k.frametable i).va) (e &&& ~~~ bit pteA))
      (update C i true) where
  same := by
    rw [h.same]
    rfl
  kept := by
    intro r t ht
    obtain ⟨t', ht'⟩ := h.kept r t ht
    apply Option.isSome_iff_exists.mp
    rw [Kernel.setEntry_tables, Tables.isSome_setEntry, ht']
    rfl
  entry := by
    intro j
    have hold := h.entry j
    cases hq : (k.frametable j).proc with
    | none =>
      unfold Kernel.frameEntry
      rw [hq]
      show ((k'.frametable j).proc.bind _) = _
      rw [h.frametable, hq]
      rfl
    | some q =>
      have hq' : (k'.frametable j).proc = some q := by rw [h.frametable, hq]
      rw [Kernel.frameEntry_of_proc hq', h.frametable, h.proc] at hold
      have hq'' : ((k'.setEntry (k.proc p).pagetable (vpn (k.frametable i).va)
          (e &&& ~~~ bit pteA)).frametable j).proc = some q := hq'
      rw [Kernel.frameEntry_of_proc hq'']
      show (k'.tables.setEntry _ _ _).entry (k'.proc q).pagetable (vpn (k'.frametable j).va) = _
      rw [Tables.entry_setEntry, h.frametable, h.proc]
      by_cases hji : j = i
      · subst hji
        rw [hp] at hq
        cases hq
        rw [if_pos ⟨rfl, rfl⟩, hold, he, update_self, hC]
        rfl
      · have hne : ¬ ((k.proc q).pagetable = (k.proc p).pagetable ∧
            vpn (k.frametable j).va = vpn (k.frametable i).va) := by
          rintro ⟨hpt, hva⟩
          exact hji (hn.distinct j i q p hq hp hpt hva)
        rw [if_neg hne, hold, update_of_ne hji]

theorem getLsbD_swept (b : Bool) (e : Pte) {n : Nat} (hn : n < 64) :
    (if b then e &&& ~~~ bit pteA else e).getLsbD n = (e.getLsbD n && !(b && decide (pteA = n))) := by
  cases b
  · simp
  · rw [if_pos rfl, getLsbD_and_not_bit hn, Bool.true_and]

/-- **A turn of the clock** does what `turn` says. -/
theorem clockLook_run (h : Swept k k' C) (hn : k.NamesPtes me) :
    ∃ k'', clockLook me best k' = .ok ((turn k me (C, best) k'.clockHand).2, k'', []) ∧
      Swept k k'' (turn k me (C, best) k'.clockHand).1 ∧ k''.clockHand = k'.clockHand := by
  obtain ⟨i, hi⟩ : ∃ i, i = k'.clockHand := ⟨_, rfl⟩
  -- an entry that is not eligible
  have hskip : k.eligible me i = false → turn k me (C, best) i = (C, best) := by
    intro he
    simp [turn, he]
  unfold clockLook
  rw [get_bind_apply, ← hi]
  cases hp : (k.frametable i).proc with
  | none =>
    have hp' : (k'.frametable i).proc = none := by rw [h.frametable, hp]
    rw [hskip (by simp [Kernel.eligible, hp])]
    refine ⟨k', ?_, h, hi.symm⟩
    rw [hp']
    rfl
  | some p =>
    have hp' : (k'.frametable i).proc = some p := by rw [h.frametable, hp]
    rw [hp']
    dsimp only
    rw [h.runsElsewhere]
    cases hrun : k.runsElsewhere me p with
    | true =>
      rw [hskip (by simp [Kernel.eligible, hp, hrun])]
      exact ⟨k', rfl, h, hi.symm⟩
    | false =>
      obtain ⟨hva, t, ht⟩ := hn.walkable i p hp hrun
      obtain ⟨t', ht'⟩ := h.kept _ t ht
      have hentry := h.entry i
      rw [Kernel.frameEntry_of_proc hp', h.frametable, h.proc] at hentry
      rw [h.frametable, h.proc, if_neg Bool.false_ne_true, bind_of_ok (walk_run hva ht'), hentry]
      cases he : k.frameEntry i with
      | none =>
        rw [hskip (by simp [Kernel.eligible, he])]
        exact ⟨k', rfl, h, hi.symm⟩
      | some e =>
        rw [he] at hentry
        obtain ⟨e', he'⟩ : ∃ e', e' = if C i then e &&& ~~~ bit pteA else e := ⟨_, rfl⟩
        have hV : e'.getLsbD pteV = e.getLsbD pteV := by
          rw [he', getLsbD_swept _ _ (by decide), show decide (pteA = pteV) = false from rfl]
          simp
        have hA : e'.getLsbD pteA = (e.getLsbD pteA && !C i) := by
          rw [he', getLsbD_swept _ _ (by decide)]
          simp
        have href : k.referenced i = e.getLsbD pteA := by simp [Kernel.referenced, he]
        have hlevel : k.level i = (k.proc p).curQueueLvl := by simp [Kernel.level, hp]
        have hderef : deref ⟨(k.proc p).pagetable, vpn (k.frametable i).va⟩ k' =
            .ok (e', k', []) := deref_run (hentry.trans (congrArg some he'.symm))
        dsimp only [Option.map_some]
        rw [bind_of_ok hderef, hV]
        cases hVe : e.getLsbD pteV with
        | false =>
          rw [hskip (by simp [Kernel.eligible, he, hVe])]
          exact ⟨k', rfl, h, hi.symm⟩
        | true =>
          have helig : k.eligible me i = true := by
            simp [Kernel.eligible, hp, hrun, he, hVe]
          rw [if_pos rfl, hA, ← href]
          unfold turn
          rw [if_pos helig]
          cases hcl : k.referenced i && !C i with
          | true =>
            have hC : C i = false := by
              cases hCi : C i with
              | false => rfl
              | true => simp [hCi] at hcl
            have heq : e' = e := by rw [he', hC]; rfl
            rw [if_pos rfl, if_pos rfl, heq]
            exact ⟨_, rfl, h.clearA hn hp he hC, hi.symm⟩
          | false =>
            refine ⟨k', ?_, h, hi.symm⟩
            rw [if_neg Bool.false_ne_true, if_neg Bool.false_ne_true]
            unfold consider
            rw [hlevel]
            split <;> rfl

/-- **The clock** computes the fold over its turns. -/
theorem clockScan_run (hn : k.NamesPtes me) (n : Nat) (h : Swept k k' C) :
    ∃ k'', clockScan me n best k' =
        .ok (((turns k'.clockHand n).foldl (turn k me) (C, best)).2, k'', []) ∧
      Swept k k'' ((turns k'.clockHand n).foldl (turn k me) (C, best)).1 := by
  induction n generalizing k' best C with
  | zero => exact ⟨k', rfl, h⟩
  | succ n ih =>
    obtain ⟨k₁, hlook, hswept, hhand⟩ := @clockLook_run D k k' me best C h hn
    obtain ⟨k₂, hscan, hswept₂⟩ := @ih _ (turn k me (C, best) k'.clockHand).2 _ hswept.advanceHand
    have hnext : k₁.advanceHand.clockHand = k'.clockHand + 1 := by
      rw [← hhand]
      rfl
    rw [hnext] at hscan hswept₂
    refine ⟨k₂, ?_, hswept₂⟩
    unfold clockScan
    rw [bind_of_ok hlook, modify_bind_apply, hscan]
    rfl

/-- **The whole loop**: what it keeps, and the reference bits it clears. -/
theorem clockScan_laps (hn : k.NamesPtes me) :
    ∃ k', clockScan me (maxFrames * 2) ⟨none, 0⟩ k =
        .ok ((considered k me).foldl (consider k) ⟨none, 0⟩, k', []) ∧
      Swept k k' fun i => k.eligible me i && k.referenced i := by
  obtain ⟨k', hscan, hswept⟩ := @clockScan_run D k k me ⟨none, 0⟩ _ hn (maxFrames * 2) .refl
  obtain ⟨hbest, hcleared⟩ := @foldl_turn_laps D k me ⟨none, 0⟩
  rw [hbest] at hscan
  rw [funext hcleared] at hswept
  exact ⟨k', hscan, hswept⟩

end Loop

/-! ## The eviction -/

section Eviction

variable {D : Type} {k k' : Kernel D} {me : ProcId}

/-- Nothing is considered if and only if nothing is eligible. -/
theorem considered_eq_nil : considered k me = [] ↔ ∀ i, k.eligible me i = false := by
  constructor
  · intro h i
    have hsecond := (append_eq_nil_iff.mp h).2
    have := filter_eq_nil_iff.mp hsecond i (mem_lap _ i)
    simpa using this
  · intro h
    unfold considered
    rw [filter_eq_nil_iff.mpr (by simp [h]), filter_eq_nil_iff.mpr (by simp [h])]
    rfl

theorem Kernel.NamesPtes.setLock (h : k.NamesPtes me) (b : Bool) : (k.setLock b).NamesPtes me :=
  ⟨h.walkable, h.distinct⟩

theorem Swept.unlock {C : Fin maxFrames → Bool} (hl : k.framelock = false)
    (h : Swept (k.setLock true) k' C) : Swept k (k'.setLock false) C where
  same := by
    rw [h.same, ← hl]
    rfl
  kept := h.kept
  entry := h.entry

/-- The reference bits that are cleared. -/
abbrev Kernel.spent (k : Kernel D) (me : ProcId) (i : Fin maxFrames) : Bool :=
  k.eligible me i && k.referenced i

/-- After the loop no eligible entry has its reference bit. -/
theorem Swept.spent_clear (h : Swept k k' (k.spent me)) {i : Fin maxFrames} {p : ProcId}
    (hp : (k.frametable i).proc = some p) (hi : k.eligible me i = true) :
    ∃ e, k'.tables.entry (k.proc p).pagetable (vpn (k.frametable i).va) = some e ∧
      e.getLsbD pteA = false := by
  have hentry := h.entry i
  rw [Kernel.frameEntry_of_proc (k := k') (by rw [h.frametable, hp]), h.frametable, h.proc] at hentry
  cases he : k.frameEntry i with
  | none => simp [Kernel.eligible, he] at hi
  | some e =>
    have href : k.referenced i = e.getLsbD pteA := by simp [Kernel.referenced, he]
    rw [he, Option.map_some] at hentry
    refine ⟨_, hentry, ?_⟩
    rw [getLsbD_swept _ _ (by decide), Kernel.spent, hi, href]
    cases e.getLsbD pteA <;> rfl

/-- What the loop kept, or else the fallback. -/
def chosen (k : Kernel D) (me : ProcId) : Option (Fin maxFrames) :=
  match ((considered k me).foldl (consider k) ⟨none, 0⟩).idx with
  | none => k.anyVictim me
  | some i => some i

/-- The first critical section up to the choice. -/
theorem clockSelect_scan (hlock : k.framelock = false) (hn : k.NamesPtes me) :
    ∃ k₁, Swept k k₁ (k.spent me) ∧ clockSelect me k =
      match chosen k me with
      | none => .ok (none, k₁, [])
      | some i => .ok ((k.frametable i).proc.map fun p => ⟨i, p, (k.frametable i).va⟩,
          k₁.hideFrame i, []) := by
  obtain ⟨k₁, hscan, hswept⟩ := clockScan_laps (hn.setLock true)
  refine ⟨k₁.setLock false, hswept.unlock hlock, ?_⟩
  have hlock₁ : k₁.framelock = true := by
    rw [hswept.same]
    rfl
  have hany : k₁.anyVictim me = k.anyVictim me := by
    unfold Kernel.anyVictim Kernel.runsElsewhere
    rw [hswept.frametable, hswept.proc]
    rfl
  have hscan' : clockScan me (maxFrames * 2) ⟨none, 0⟩ (k.setLock true) =
      .ok ((considered k me).foldl (consider k) ⟨none, 0⟩, k₁, []) := hscan
  unfold clockSelect
  rw [bind_of_ok (acquireFramelock_run hlock), bind_of_ok hscan', get_bind_apply, hany]
  change (match chosen k me with
    | none => (do releaseFramelock; return none : KM D (Option Victim))
    | some i => (do
        modify fun (q : Kernel D) => q.hideFrame i
        releaseFramelock
        return (k₁.frametable i).proc.map fun p => ⟨i, p, (k₁.frametable i).va⟩)) k₁ = _
  cases chosen k me with
  | none =>
    dsimp only
    rw [bind_of_ok (releaseFramelock_run hlock₁)]
    rfl
  | some i =>
    dsimp only
    rw [modify_bind_apply, bind_of_ok (releaseFramelock_run (k := k₁.hideFrame i) hlock₁),
      hswept.frametable]
    rfl

/-- With an eligible entry, the preferred one is chosen and hidden. -/
theorem clockSelect_preferred (hlock : k.framelock = false) (hn : k.NamesPtes me)
    (hsome : ∃ i, k.eligible me i = true) :
    ∃ v p k₁, (k.frametable v).proc = some p ∧ k.eligible me v = true ∧
      (∀ j, k.eligible me j = true → k.Preferred v j) ∧ Swept k k₁ (k.spent me) ∧
      clockSelect me k = .ok (some ⟨v, p, (k.frametable v).va⟩, k₁.hideFrame v, []) := by
  obtain ⟨k₁, hswept, hselect⟩ := clockSelect_scan hlock hn
  have hne : considered k me ≠ [] := by
    intro hnil
    obtain ⟨i, hi⟩ := hsome
    rw [considered_eq_nil.mp hnil i] at hi
    cases hi
  obtain ⟨v, hmax, hfold⟩ := foldl_consider hne
  obtain ⟨hv, hpref⟩ := hmax.preferred
  have hchosen : chosen k me = some v := by
    unfold chosen
    rw [hfold]
  rw [hchosen] at hselect
  cases hp : (k.frametable v).proc with
  | none => simp [Kernel.eligible, hp] at hv
  | some p =>
    refine ⟨v, p, k₁, hp, hv, hpref, hswept, ?_⟩
    rw [hselect]
    dsimp only
    rw [hp]
    rfl

variable [SwapStore D]

/-- The judgement `swapout_spec`, read off a run that returned. -/
theorem swapout_ok {pt va : Nat} {t : PageTable} (hva : va < maxva) (ht : k.tables pt = some t)
    {r : Option (Fin maxSwap)} {es : List (Eviction D)} (h : swapout me pt va k = .ok (r, k', es)) :
    SwapoutResult me pt va k r k' := (swapout_spec (fun _ => trivial) me hva ht).holds h

/-- A page that is not valid stays where it is. -/
theorem swapout_not_valid {pt va : Nat} {t : PageTable} (hva : va < maxva) (ht : k.tables pt = some t)
    (h : ∀ e, k.tables.entry pt (vpn va) = some e → e.getLsbD pteV = false) :
    swapout me pt va k = .ok (none, k, []) := by
  unfold swapout
  rw [bind_of_ok (walk_run hva ht)]
  cases he : k.tables.entry pt (vpn va) with
  | none => rfl
  | some e =>
    have hderef : deref ⟨pt, vpn va⟩ k = .ok (e, k, []) := deref_run he
    dsimp only [Option.map_some]
    rw [bind_of_ok hderef, if_pos (h e he)]
    rfl

/-- With no eligible entry there is no victim, or one whose page cannot go out. -/
theorem clockEvict_none (hlock : k.framelock = false) (hn : k.NamesPtes me)
    (hnone : ∀ i, k.eligible me i = false) : ∃ k', clockEvict me k = .ok (0, k', []) := by
  obtain ⟨k₁, hswept, hselect⟩ := clockSelect_scan hlock hn
  have hchosen : chosen k me = k.anyVictim me := by
    unfold chosen
    rw [considered_eq_nil.mpr hnone]
    rfl
  rw [hchosen] at hselect
  unfold clockEvict
  rw [get_bind_apply]
  cases hany : k.anyVictim me with
  | none =>
    rw [hany] at hselect
    rw [bind_of_ok hselect]
    exact ⟨k₁, rfl⟩
  | some i =>
    rw [hany] at hselect
    have hholds := firstIdx_holds hany
    cases hp : (k.frametable i).proc with
    | none =>
      rw [hp] at hholds
      cases hholds
    | some p =>
      rw [hp] at hholds
      have hrun : k.runsElsewhere me p = false := by simpa using hholds
      have hselect' : clockSelect me k =
          .ok (some ⟨i, p, (k.frametable i).va⟩, k₁.hideFrame i, []) := by
        rw [hselect]
        dsimp only
        rw [hp]
        rfl
      obtain ⟨hva, t, ht⟩ := hn.walkable i p hp hrun
      obtain ⟨t', ht'⟩ := hswept.kept _ t ht
      have hinvalid : ∀ e, (k₁.hideFrame i).tables.entry (k.proc p).pagetable
          (vpn (k.frametable i).va) = some e → e.getLsbD pteV = false := by
        intro e he
        have hentry := hswept.entry i
        rw [Kernel.frameEntry_of_proc (k := k₁) (by rw [hswept.frametable, hp]), hswept.frametable,
          hswept.proc] at hentry
        change k₁.tables.entry _ _ = some e at he
        rw [he] at hentry
        obtain ⟨e₀, he₀, heq⟩ := Option.map_eq_some_iff.mp hentry.symm
        have helig := hnone i
        simp only [Kernel.eligible, hp, hrun, he₀, Bool.not_false, Bool.true_and,
          Option.any_some] at helig
        rw [← heq, getLsbD_swept _ _ (by decide), helig]
        rfl
      have hout : swapout me _ _ (k₁.hideFrame i) = _ := swapout_not_valid hva ht' hinvalid
      have hlock₁ : (k₁.hideFrame i).framelock = false := by
        show k₁.framelock = false
        rw [hswept.same]
        exact hlock
      have hproc : (k₁.hideFrame i).proc = k.proc := hswept.proc
      rw [bind_of_ok hselect']
      dsimp only
      rw [get_bind_apply, hproc, bind_of_ok hout]
      dsimp only
      rw [bind_of_ok (acquireFramelock_run hlock₁), modify_bind_apply,
        bind_of_ok (releaseFramelock_run rfl)]
      exact ⟨_, rfl⟩

/-- The rest of `clock_evict` once the page of the victim is out. -/
theorem clockEvict_out {v : Victim} {k₁ k₂ : Kernel D} {s : Fin maxSwap}
    (hselect : clockSelect me k = .ok (some v, k₁, []))
    (hout : swapout me (k₁.proc v.proc).pagetable v.va k₁ = .ok (some s, k₂, []))
    (hlock : k₂.framelock = false) {k₃ : Kernel D}
    (hk₃ : k₃ = ((k₂.setLock true).finishEvict v).setLock false) :
    clockEvict me k = .ok ((k₃.frametable v.idx).pa, k₃, [⟨v.idx, (k₃.frametable v.idx).pa, k, k₃⟩]) := by
  unfold clockEvict
  rw [get_bind_apply, bind_of_ok hselect]
  dsimp only
  rw [get_bind_apply, bind_of_ok hout]
  dsimp only
  rw [bind_of_ok (acquireFramelock_run hlock), modify_bind_apply,
    bind_of_ok (releaseFramelock_run rfl), get_bind_apply, ← hk₃]
  rfl

/-- **Victim selection.** With an eligible entry the victim is the preferred one; once its page is out,
the hand stands behind it, the other entries of the frame table are as they were, and no eligible entry
has its reference bit. With none, `clock_evict` returns `0`. -/
theorem clockEvict_victim (hlock : k.framelock = false) (hn : k.NamesPtes me) :
    ((∀ i, k.eligible me i = false) → ∃ k', clockEvict me k = .ok (0, k', [])) ∧
    ((∃ i, k.eligible me i = true) → ∃ v p k₁, (k.frametable v).proc = some p ∧
      k.eligible me v = true ∧ (∀ j, k.eligible me j = true → k.Preferred v j) ∧
      clockSelect me k = .ok (some ⟨v, p, (k.frametable v).va⟩, k₁, []) ∧
      ∀ s k₂, swapout me (k.proc p).pagetable (k.frametable v).va k₁ = .ok (some s, k₂, []) →
        ∃ k₃, clockEvict me k =
            .ok ((k.frametable v).pa, k₃, [⟨v, (k.frametable v).pa, k, k₃⟩]) ∧
          k₃.clockHand = v + 1 ∧ (∀ j, j ≠ v → k₃.frametable j = k.frametable j) ∧
          ∀ i q, (k.frametable i).proc = some q → k.eligible me i = true →
            ∃ e, k₃.tables.entry (k.proc q).pagetable (vpn (k.frametable i).va) = some e ∧
              e.getLsbD pteA = false) := by
  refine ⟨clockEvict_none hlock hn, fun hsome => ?_⟩
  obtain ⟨v, p, k₁, hp, hv, hpref, hswept, hselect⟩ := clockSelect_preferred hlock hn hsome
  refine ⟨v, p, k₁.hideFrame v, hp, hv, hpref, hselect, ?_⟩
  intro s k₂ hout
  have hrun : k.runsElsewhere me p = false := by
    cases hrun : k.runsElsewhere me p with
    | false => rfl
    | true => simp [Kernel.eligible, hp, hrun] at hv
  obtain ⟨hva, t, ht⟩ := hn.walkable v p hp hrun
  obtain ⟨t', ht'⟩ := hswept.kept _ t ht
  obtain ⟨e, d, he, -, -, -, -, hk₂⟩ := swapout_ok (k := k₁.hideFrame v) hva ht' hout
  have hlock₂ : k₂.framelock = false := by
    rw [hk₂]
    show k₁.framelock = false
    rw [hswept.same]
    exact hlock
  have hproc : (k₁.hideFrame v).proc = k.proc := hswept.proc
  have hframe₂ : ∀ j, k₂.frametable j = if j = v then { k.frametable v with proc := none }
      else k.frametable j := by
    intro j
    rw [hk₂]
    show update k₁.frametable v { k₁.frametable v with proc := none } j = _
    rw [hswept.frametable]
    exact update_apply _ _ _ _
  obtain ⟨k₃, hk₃⟩ : ∃ k₃, k₃ = ((k₂.setLock true).finishEvict ⟨v, p, (k.frametable v).va⟩).setLock false :=
    ⟨_, rfl⟩
  have hframe₃ : ∀ j, k₃.frametable j = if j = v then { k.frametable v with proc := none, used := false }
      else k.frametable j := by
    intro j
    rw [hk₃]
    show update k₂.frametable v { k₂.frametable v with used := false } j = _
    rw [update_apply]
    split
    · rw [hframe₂, if_pos rfl]
    · next hj => rw [hframe₂, if_neg hj]
  have hpa : (k₃.frametable v).pa = (k.frametable v).pa := by rw [hframe₃, if_pos rfl]
  refine ⟨k₃, ?_, ?_, ?_, ?_⟩
  · rw [← hproc] at hout
    rw [clockEvict_out hselect hout hlock₂ hk₃, hpa]
  · rw [hk₃, hk₂]
    rfl
  · intro j hj
    rw [hframe₃, if_neg hj]
  · intro i q hq hi
    obtain ⟨e', hentry, hA⟩ := hswept.spent_clear hq hi
    rw [hk₃, hk₂]
    show ∃ e'', (k₁.tables.setEntry (k.proc p).pagetable (vpn (k.frametable v).va)
      (swapEntry s e)).entry (k.proc q).pagetable (vpn (k.frametable i).va) = some e'' ∧ _
    rw [Tables.entry_setEntry]
    split
    · next hsame =>
        have hiv := hn.distinct i v q p hq hp hsame.1 hsame.2
        subst hiv
        change k₁.tables.entry _ _ = some e at he
        rw [hsame.1, he] at hentry
        cases hentry
        rw [he]
        exact ⟨_, rfl, by rw [swapEntry_flag s e (by decide) (by decide) (by decide), hA]⟩
    · exact ⟨e', hentry, hA⟩

end Eviction

/-- Two pages of the first process: page 0 was referenced, page 1 was not. -/
def twoPages : Kernel PageArray :=
  { Kernel.boot .small [] ⟨fun _ => junk 0⟩ with
    tables := fun _ => some ⟨fun _ => some ⟨0, fun _ => some ⟨0, fun i =>
      if i = 0 then bit pteV ||| bit pteA else bit pteV⟩⟩⟩
    frametable := fun i =>
      if i.val < 2 then ⟨true, some 0, i.val * pgsize, 0x80030000 + i.val * pgsize⟩
      else ⟨false, none, 0, 0⟩ }

theorem twoPages_proc {i : Fin maxFrames} {p : ProcId} (h : (twoPages.frametable i).proc = some p) :
    i.val < 2 ∧ (twoPages.frametable i).va = i.val * pgsize := by
  by_cases hi : i.val < 2
  · have hframe : twoPages.frametable i =
        ⟨true, some 0, i.val * pgsize, 0x80030000 + i.val * pgsize⟩ := if_pos hi
    rw [hframe]
    exact ⟨hi, rfl⟩
  · have hframe : twoPages.frametable i = ⟨false, none, 0, 0⟩ := if_neg hi
    rw [hframe] at h
    cases h

theorem twoPages_namesPtes : twoPages.NamesPtes 0 where
  walkable := by
    intro i p hp _
    obtain ⟨hi, hva⟩ := twoPages_proc hp
    refine ⟨?_, _, rfl⟩
    rw [hva]
    unfold pgsize maxva
    omega
  distinct := by
    intro i j p q hp hq _ hvpn
    obtain ⟨hi, hvi⟩ := twoPages_proc hp
    obtain ⟨hj, hvj⟩ := twoPages_proc hq
    rw [hvi, hvj] at hvpn
    have h₀ : px 0 (i.val * pgsize) = px 0 (j.val * pgsize) := congrArg Vpn.i₀ hvpn
    have h₁ := congrArg Fin.val h₀
    simp only [px, pgsize] at h₁
    apply Fin.ext
    omega

/-- The victim is preferred to both pages. -/
theorem clockEvict_victim_twoPages : ∃ v p k₁,
    clockSelect 0 twoPages = .ok (some ⟨v, p, (twoPages.frametable v).va⟩, k₁, []) ∧
      twoPages.Preferred v 0 ∧ twoPages.Preferred v 1 := by
  have h₀ : twoPages.eligible 0 0 = true := by decide
  have h₁ : twoPages.eligible 0 1 = true := by decide
  obtain ⟨v, p, k₁, -, -, hpref, hselect, -⟩ :=
    (clockEvict_victim (k := twoPages) rfl twoPages_namesPtes).2 ⟨0, h₀⟩
  exact ⟨v, p, k₁, hselect, hpref 0 h₀, hpref 1 h₁⟩

end Xv6
