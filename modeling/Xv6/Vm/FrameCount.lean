import Xv6.Lib.Counting
import Xv6.Lib.Transition
import Xv6.Vm.EvictEffect

/-!
# The counters of the frame table

`active_frames` and the `resident_pages` of the processes are adjusted by `frametable_alloc`,
`frametablefree` and `clock_evict`, one entry of the frame table at a time. In every run of these calls
the two counters are the numbers they stand for, whatever happens to page tables, swap space, disks and
the rest of the kernel between two calls.
-/

namespace Xv6

open Function Finset

variable {D : Type} {k k' : Kernel D}

open TraceM

/-! ## The counters -/

/-- The number of entries in use. -/
def Kernel.usedFrames (k : Kernel D) : Nat :=
  (univ.filter fun i => (k.frametable i).used = true).card

/-- An entry in use for the process `p`. -/
def Frame.OwnedBy (p : ProcId) (f : Frame) : Prop := f.used = true ∧ f.proc = some p

instance (p : ProcId) : DecidablePred (Frame.OwnedBy p) := fun f =>
  inferInstanceAs (Decidable (f.used = true ∧ f.proc = some p))

/-- The number of entries in use for the process `p`. -/
def Kernel.framesOf (k : Kernel D) (p : ProcId) : Nat :=
  (univ.filter fun i => (k.frametable i).OwnedBy p).card

theorem Kernel.usedFrames_le (k : Kernel D) : k.usedFrames ≤ maxFrames :=
  (card_filter_le _ _).trans (by simp)

theorem Kernel.framesOf_le (k : Kernel D) (p : ProcId) : k.framesOf p ≤ maxFrames :=
  (card_filter_le _ _).trans (by simp)

/-- Every counter of the frame table is what it stands for, and an entry that is not in use has no
process. -/
structure Counted (k : Kernel D) : Prop where
  unused : ∀ i, (k.frametable i).used = false → (k.frametable i).proc = none
  active : k.activeFrames = k.usedFrames
  resident : ∀ p, (k.proc p).residentPages.toInt = k.framesOf p

namespace Counted

theorem boot (image : Image) (free : List Nat) (d : D) : Counted (Kernel.boot image free d) := by
  refine ⟨fun _ _ => rfl, ?_, ?_⟩
  · simp [Kernel.usedFrames, Kernel.boot]
  · intro p
    simp [Kernel.framesOf, Kernel.boot, Frame.OwnedBy, Proc.fresh]

/-- One entry changes, and the counters follow it. -/
theorem setFrame (h : Counted k) {i : Fin maxFrames} {f : Frame}
    (hft : k'.frametable = update k.frametable i f) (hf : f.used = false → f.proc = none)
    (hactive : k'.activeFrames + (if (k.frametable i).used = true then 1 else 0) =
      k.activeFrames + if f.used = true then 1 else 0)
    (hres : ∀ p, (k'.proc p).residentPages.toInt + (if (k.frametable i).OwnedBy p then 1 else 0) =
      (k.proc p).residentPages.toInt + if f.OwnedBy p then 1 else 0) :
    Counted k' := by
  refine ⟨?_, ?_, ?_⟩
  · intro j
    rw [hft]
    rcases eq_or_ne j i with rfl | hne
    · rw [update_self]
      exact hf
    · rw [update_of_ne hne]
      exact h.unused j
  · have hcard := Counting.card_filter_update (fun x : Frame => x.used = true) k.frametable i f
    have := h.active
    unfold Kernel.usedFrames at this ⊢
    rw [hft]
    split_ifs at hcard hactive <;> omega
  · intro p
    have hcard := Counting.card_filter_update (Frame.OwnedBy p) k.frametable i f
    have := h.resident p
    have := hres p
    unfold Kernel.framesOf at *
    rw [hft]
    split_ifs at hcard this <;> omega

/-- A counter of resident pages never overflows. -/
theorem moreResident (h : Counted k) (p : ProcId) :
    ((k.proc p).moreResident).residentPages.toInt = (k.proc p).residentPages.toInt + 1 := by
  have hres := h.resident p
  have hle : k.framesOf p ≤ 64 := k.framesOf_le p
  simp only [Proc.moreResident, Int32.toInt_add]
  rw [Int.bmod_eq_of_le] <;> simp <;> omega

theorem lessResident (h : Counted k) (p : ProcId) :
    ((k.proc p).residentPages - 1).toInt = (k.proc p).residentPages.toInt - 1 := by
  have hres := h.resident p
  have hle : k.framesOf p ≤ 64 := k.framesOf_le p
  rw [Int32.toInt_sub, Int.bmod_eq_of_le] <;> simp <;> omega

/-- `frametable_alloc` counts a frame of the owner. -/
theorem registerFrame (h : Counted k) {i : Fin maxFrames} (hi : (k.frametable i).used = false) (pa : Nat)
    (p : Option ProcId) (va : Nat) : Counted (k.registerFrame i pa p va) := by
  have hold : ∀ q, ¬ (k.frametable i).OwnedBy q := by
    intro q hq
    rw [hq.1] at hi
    cases hi
  cases p with
  | none =>
    refine h.setFrame (f := ⟨true, none, va, pa⟩) rfl (by simp) ?_ ?_
    · simp [Kernel.registerFrame, hi]
    · intro q
      rw [if_neg (hold q), if_neg (by simp [Frame.OwnedBy])]
      rfl
  | some p =>
    refine h.setFrame (f := ⟨true, some p, va, pa⟩) rfl (by simp) ?_ ?_
    · simp [Kernel.registerFrame, Kernel.updProc, hi]
    · intro q
      rw [if_neg (hold q)]
      show (update k.proc p (k.proc p).moreResident q).residentPages.toInt + 0 = _
      rcases eq_or_ne q p with rfl | hne
      · rw [update_self, h.moreResident, if_pos ⟨rfl, rfl⟩]
        omega
      · rw [update_of_ne hne, if_neg]
        rintro ⟨-, heq⟩
        exact hne (Option.some.inj heq).symm

/-- An entry in use is given up, and the process it had, if any, counts one page less. -/
theorem giveUp (h : Counted k) {i : Fin maxFrames} (hi : (k.frametable i).used = true) {f : Frame}
    (hf : f.used = false) (hproc : f.proc = none)
    (hft : k'.frametable = update k.frametable i f)
    (hactive : k'.activeFrames = k.activeFrames - 1)
    (hres : ∀ q, (k'.proc q).residentPages =
      if (k.frametable i).proc = some q then (k.proc q).residentPages - 1
      else (k.proc q).residentPages) :
    Counted k' := by
  refine h.setFrame hft (fun _ => hproc) ?_ ?_
  · simp [hactive, hi, hf]
  · intro q
    rw [if_neg (c := f.OwnedBy q) (by simp [Frame.OwnedBy, hf]), hres q]
    by_cases hq : (k.frametable i).proc = some q
    · rw [if_pos hq, if_pos ⟨hi, hq⟩, h.lessResident]
      omega
    · rw [if_neg hq, if_neg (fun hown => hq hown.2)]

/-- `frametablefree` counts it off. -/
theorem dropFrame (h : Counted k) (pa : Nat) : Counted (k.dropFrame pa) := by
  unfold Kernel.dropFrame
  split
  · exact h
  · next i hi =>
      have hused : (k.frametable i).used = true := by
        have := firstIdx_holds hi
        simp only [Bool.and_eq_true] at this
        exact this.2
      unfold Kernel.clearFrame
      cases hp : (k.frametable i).proc with
      | none =>
        refine h.giveUp hused (f := ⟨false, none, 0, 0⟩) rfl rfl rfl rfl ?_
        intro q
        rw [hp, if_neg (by simp)]
        rfl
      | some p =>
        refine h.giveUp hused (f := ⟨false, none, 0, 0⟩) rfl rfl rfl rfl ?_
        intro q
        rw [hp]
        show (update k.proc p (k.proc p).lessResident q).residentPages = _
        rcases eq_or_ne q p with rfl | hne
        · rw [update_self, if_pos rfl]
          rfl
        · rw [update_of_ne hne, if_neg fun heq => hne (Option.some.inj heq).symm]

theorem setLock (h : Counted k) (b : Bool) : Counted (k.setLock b) := ⟨h.unused, h.active, h.resident⟩

theorem turned (h : Counted k) (ht : Turned k k') : Counted k' := by
  obtain ⟨T, hand, rfl, -⟩ := ht
  exact ⟨h.unused, h.active, h.resident⟩

/-- So does an eviction. -/
theorem evicted (h : Counted k) {vic : Victim} (hp : (k.frametable vic.idx).proc = some vic.proc)
    (pt : Nat) (s : Fin maxSwap) (slot : SwapSlot) (d : D) (e : Pte) :
    Counted (k.evicted vic pt s slot d e) := by
  have hused : (k.frametable vic.idx).used = true := by
    by_contra hne
    have := h.unused vic.idx (by simpa using hne)
    rw [hp] at this
    cases this
  refine h.giveUp hused rfl rfl rfl rfl ?_
  intro q
  show (update k.proc vic.proc (k.proc vic.proc).countEvicted q).residentPages = _
  rw [hp]
  rcases eq_or_ne q vic.proc with rfl | hne
  · rw [update_self, if_pos rfl]
    rfl
  · rw [update_of_ne hne, if_neg fun heq => hne (Option.some.inj heq).symm]

end Counted

/-! ## Runs -/

variable [SwapStore D]

/-- The calls that change the frame table, each by the process `me`, and what the rest of the kernel
does between them. -/
inductive FrameOp where
  | frametableAlloc (me : ProcId) (pa : Nat) (p : Option ProcId) (va : Nat)
  | frametablefree (pa : Nat)
  | clockEvict (me : ProcId)
  | other

/-- A call that runs to completion. `frametable_alloc` is called with a frame and while an entry is
free. The rest of the kernel leaves the frame table and its counters alone. -/
def FrameOp.Step (k : Kernel D) : FrameOp → Kernel D → Prop
  | .frametableAlloc me pa p va, k' => pa ≠ 0 ∧ (∃ i, (k.frametable i).used = false) ∧
      ∃ es, frametableAllocFor me pa p va k = .ok ((), k', es)
  | .frametablefree pa, k' => ∃ es, Xv6.frametablefree pa k = .ok ((), k', es)
  | .clockEvict me, k' => ∃ pa es, Xv6.clockEvict me k = .ok (pa, k', es)
  | .other, k' => k'.frametable = k.frametable ∧ k'.activeFrames = k.activeFrames ∧
      ∀ p, (k'.proc p).residentPages = (k.proc p).residentPages

theorem frametableAllocFor_counted (me : ProcId) {pa : Nat} (p : Option ProcId) (va : Nat)
    (h : Counted k) (hpa : pa ≠ 0) (hfree : ∃ i, (k.frametable i).used = false) :
    Sat .lenient (frametableAllocFor me pa p va) (fun _ k' => Counted k') k := by
  obtain ⟨j, hj⟩ := hfree
  obtain ⟨i, hi⟩ := firstIdx_isSome (p := fun i => !(k.frametable i).used) (i := j) (by simp [hj])
  have hused : (k.frametable i).used = false := by simpa using firstIdx_holds hi
  unfold frametableAllocFor frametableAllocBody
  cases hlock : k.framelock with
  | true => exact Sat.of_error (bind_of_error (acquireFramelock_panic hlock)) trivial
  | false =>
    apply Sat.seq_run (acquireFramelock_run hlock)
    rw [if_neg hpa]
    apply Sat.seq_get
    rw [show (firstIdx fun i => !((k.setLock true).frametable i).used) = some i from hi]
    apply Sat.seq_update
    have hreg := (h.setLock true).registerFrame (i := i) hused pa p va
    exact Sat.of_ok (releaseFramelock_run (by cases p <;> rfl)) (hreg.setLock false)

omit [SwapStore D] in
theorem frametablefree_counted (pa : Nat) (h : Counted k) :
    Sat .lenient (frametablefree pa) (fun _ k' => Counted k') k := by
  cases hlock : k.framelock with
  | true =>
    unfold frametablefree
    exact Sat.of_error (bind_of_error (acquireFramelock_panic hlock)) trivial
  | false => exact Sat.of_ok (frametablefree_run pa hlock) (h.dropFrame pa)

theorem clockEvict_counted (me : ProcId) (h : Counted k) :
    Sat .lenient (clockEvict me) (fun _ k' => Counted k') k := by
  apply (clockEvict_result Watch.lenient_lax me).mono
  rintro pa k' ⟨-, hres, -⟩
  cases hres with
  | failed hturn => exact h.turned hturn
  | out hturn hp _ _ _ _ _ _ => exact (h.turned hturn).evicted (by rw [hturn.frametable]; exact hp) _ _ _ _ _

/-- Every call keeps the counters. -/
theorem Counted.step {op : FrameOp} (h : Counted k) (hs : op.Step k k') : Counted k' := by
  cases op with
  | frametableAlloc me pa p va =>
    obtain ⟨hpa, hfree, es, hrun⟩ := hs
    exact (frametableAllocFor_counted me p va h hpa hfree).holds hrun
  | frametablefree pa =>
    obtain ⟨es, hrun⟩ := hs
    exact (frametablefree_counted pa h).holds hrun
  | clockEvict me =>
    obtain ⟨pa, es, hrun⟩ := hs
    exact (clockEvict_counted me h).holds hrun
  | other =>
    obtain ⟨hft, hactive, hres⟩ := hs
    refine ⟨?_, ?_, ?_⟩
    · rw [hft]
      exact h.unused
    · rw [hactive, h.active, Kernel.usedFrames, Kernel.usedFrames, hft]
    · intro p
      rw [hres, h.resident, Kernel.framesOf, Kernel.framesOf, hft]

/-- **The counters of the frame table** after any run of its calls from boot: an entry that is not in use
has no process, `active_frames` is the number of entries in use and at most `MAX_FRAMES`, and the
`resident_pages` of each process is the number of entries in use for it. -/
theorem frametable_counted {image : Image} {free : List Nat} {d : D} {ops : List FrameOp}
    (h : Transition.Run (fun k op k' => FrameOp.Step k op k') (Kernel.boot image free d) ops k) :
    (∀ i, (k.frametable i).used = false → (k.frametable i).proc = none) ∧
      k.activeFrames = (univ.filter fun i => (k.frametable i).used = true).card ∧
      0 ≤ k.activeFrames ∧ k.activeFrames ≤ maxFrames ∧
      ∀ p, (k.proc p).residentPages.toInt =
        (univ.filter fun i => (k.frametable i).used = true ∧ (k.frametable i).proc = some p).card := by
  have hc : Counted k := h.invariant (.boot image free d) fun _ _ _ hI hs => hI.step hs
  have hle := k.usedFrames_le
  have hactive := hc.active
  refine ⟨hc.unused, hactive, by omega, by omega, ?_⟩
  intro p
  rw [hc.resident p, Kernel.framesOf]
  congr

/-- A frame registered for process 0 after boot. -/
theorem frametable_counted_one : ∃ k : Kernel PageArray, ∃ es,
    frametableAllocFor 0 0x80023000 (some 0) 0 (.boot .small [] ⟨fun _ => junk 0⟩) = .ok ((), k, es) ∧
      (k.frametable 0).used = true ∧
      k.activeFrames = (univ.filter fun i => (k.frametable i).used = true).card := by
  obtain ⟨⟨⟩, k, es, hrun, hused⟩ : Returns (frametableAllocFor 0 0x80023000 (some 0) 0)
      (fun _ k _ => (k.frametable 0).used = true) (.boot .small [] (⟨fun _ => junk 0⟩ : PageArray)) := by
    decide +kernel
  have hstep : FrameOp.Step (.boot .small [] ⟨fun _ => junk 0⟩) (.frametableAlloc 0 0x80023000 (some 0) 0) k :=
    ⟨by decide, ⟨0, rfl⟩, es, hrun⟩
  exact ⟨k, es, hrun, hused, (frametable_counted (.single hstep)).2.1⟩

end Xv6
