import Mathlib.Dynamics.PeriodicPts.Defs
import Xv6.User.MallocSpec
import Xv6.Vm.System

/-!
# What `malloc` asks of the kernel

`morecore` multiplies the units it needs by the size of a header in 64 bits, and hands the product to
`sbrk`, whose parameter is an `int`. From 2^27 units on the product does not fit: the kernel sees a
negative number, zero, or one that is too small by 2^32, while the new block is recorded with all its
units.

Here the break is the size of the process as `sys_sbrk` leaves it, `malloc` reports by how much each call
of `morecore` raised it, and the heap model with an exact `sbrk` is what remains of it as long as no
product overflows.
-/

namespace Xv6

open TraceM Function Transition

/-! ## The break -/

/-- The size of a process after `growproc(n)`, or `none` if it fails. `enough` says whether the kernel
finds the pages. -/
def brkAfter (sz : Nat) (n : Int32) (enough : Bool) : Option Nat :=
  if 0 < n then
    if trapframe < add64 sz n ∨ enough = false then none else some (add64 sz n)
  else if n < 0 then some (min sz (add64 sz n))
  else some sz

/-- What a call of `sbrk` leaves: the break moved and the old one returned, or `-1` and no change. -/
def Sbrked (sz : Nat) (n : Int32) (r : Int) (sz' : Nat) : Prop :=
  ∃ enough, (brkAfter sz n enough = some sz' ∧ r = sz) ∨
    (brkAfter sz n enough = none ∧ r = -1 ∧ sz' = sz)

section Kernel

variable {D : Type} [SwapStore D] {k : Kernel D} {me : ProcId}

/-- `growproc` moves the size as `brkAfter` says. -/
theorem growproc_brk (h : Consistent k) (hme : (k.proc me).state ≠ .unused) (n : Int32) :
    Sat (watch .plain) (growproc me n) (fun r k' => ∃ enough,
      (brkAfter (k.proc me).sz n enough = some (k'.proc me).sz ∧ r = 0) ∨
      (brkAfter (k.proc me).sz n enough = none ∧ r = -1 ∧ (k'.proc me).sz = (k.proc me).sz)) k := by
  obtain ⟨g, hready⟩ := h.ready
  have hspace := h.spaces.each me
  have hpt := h.live me hme
  unfold growproc
  apply Sat.seq_get
  dsimp only
  split
  · next hn =>
      have hpos : 0 < n.toInt := by simpa using Int32.lt_iff_toInt_lt.mp hn
      have hadd := add64_of_nonneg hspace.size hpos.le
      split
      · next hfit => exact Sat.ret ⟨true, .inr ⟨by simp [brkAfter, hn, hfit], rfl, rfl⟩⟩
      · next hfit =>
          apply Sat.seq
          apply (uvmalloc_spec (c := .plain) (by decide) (by decide) hready (hspace.table hpt) (Or.inl rfl)
            (hspace.above hpt) (Nat.not_lt.mp hfit)).mono
          rintro res k₁ ⟨-, ⟨rfl, -⟩ | ⟨rfl, hcalm⟩⟩
          · rw [max_eq_right (by omega), if_neg (by omega)]
            apply Sat.seq_update
            refine Sat.ret ⟨true, .inl ⟨?_, rfl⟩⟩
            simp [Kernel.updProc, brkAfter, hn, hfit]
          · rw [if_pos rfl]
            exact Sat.ret ⟨false, .inr ⟨by simp [brkAfter, hn], rfl, (hcalm.procs me).sz⟩⟩
  · next hn =>
      split
      · next hneg =>
          apply Sat.seq
          apply (uvmdealloc_spec (watch_allowed id) hready (hspace.table hpt) hspace.size).mono
          rintro res k₁ ⟨-, rfl, -⟩
          apply Sat.seq_update
          refine Sat.ret ⟨true, .inl ⟨?_, rfl⟩⟩
          simp [Kernel.updProc, brkAfter, hn, hneg]
      · next hzero => exact Sat.ret ⟨true, .inl ⟨by simp [brkAfter, hn, hzero], rfl⟩⟩

/-- `sbrk` moves the break, eagerly or lazily, and returns the old one. -/
theorem sysSbrk_brk (h : Consistent k) (hme : (k.proc me).state ≠ .unused) (n : Int32) (eager : Bool) :
    Sat (watch .plain) (sysSbrk me n eager)
      (fun r k' => Sbrked (k.proc me).sz n r (k'.proc me).sz) k := by
  unfold sysSbrk
  apply Sat.seq_get
  dsimp only
  split
  · apply Sat.seq
    apply (growproc_brk h hme n).mono
    rintro res k₁ ⟨enough, ⟨hbrk, rfl⟩ | ⟨hbrk, rfl, hsz⟩⟩
    · rw [if_neg (by decide)]
      exact Sat.ret ⟨enough, .inl ⟨hbrk, rfl⟩⟩
    · rw [if_pos (by decide)]
      exact Sat.ret ⟨enough, .inr ⟨hbrk, rfl, hsz⟩⟩
  · next hlazy =>
      have hsize := (h.spaces.each me).size
      have hn : 0 ≤ n.toInt := by simpa [Int32.lt_iff_toInt_lt] using fun hneg => hlazy (.inr hneg)
      have hadd := add64_of_nonneg hsize hn
      have hpos : 0 < n ↔ 0 < n.toInt := by simp [Int32.lt_iff_toInt_lt]
      rw [if_neg (by omega)]
      split
      · next hfit =>
          have hgrow : 0 < n := hpos.mpr (by omega)
          exact Sat.ret ⟨true, .inr ⟨by simp [brkAfter, hgrow, hfit], rfl, rfl⟩⟩
      · next hfit =>
          apply Sat.seq_update
          refine Sat.ret ⟨true, .inl ⟨?_, rfl⟩⟩
          by_cases hgrow : 0 < n
          · simp [Kernel.updProc, brkAfter, hgrow, hfit]
          · have hzero : n.toInt = 0 := le_antisymm (not_lt.mp (hpos.not.mp hgrow)) hn
            have hneg : ¬ n < 0 := fun hneg => hlazy (.inr hneg)
            simp [Kernel.updProc, brkAfter, hgrow, hneg, hadd, hzero]

/-- **The break after `sbrk`.** In every state that a run from a consistent kernel reaches, a call of
`sys_sbrk` that returns, eager or lazy, moved the break of the process as the heap of `malloc` assumes and
returned the old one, or returned `-1` and left it. -/
theorem sbrk_moves_break {k₀ k' : Kernel D} {ops : List VmOp} {eager : Bool} {n : Int32} {r : Int}
    {l : List (Eviction D)} (h₀ : Consistent k₀)
    (hrun : Run (fun k op k' => VmOp.Step k op k') k₀ ops k)
    (hme : (k.proc me).state ≠ .unused) (hok : sysSbrk me n eager k = .ok (r, k', l)) :
    Sbrked (k.proc me).sz n r (k'.proc me).sz :=
  (sat_plain (sysSbrk_brk (h₀.run hrun) hme n eager)).2 r k' l hok

/-- A page the process does not touch yet. -/
theorem sbrk_moves_break_lazy : ∃ k', ∃ l, sysSbrk 0 4096 false Family.grown = .ok (8192, k', l) ∧
    (k'.proc 0).sz = 12288 ∧ Sbrked (Family.grown.proc 0).sz 4096 8192 (k'.proc 0).sz := by
  obtain ⟨r, k', l, hok, rfl, hsz⟩ : Returns (sysSbrk 0 4096 false)
      (fun r k' _ => r = 8192 ∧ (k'.proc 0).sz = 12288) Family.grown := by decide +kernel
  exact ⟨k', l, hok, hsz, sbrk_moves_break Family.grown_consistent .nil Family.grown_runs.2.2.2 hok⟩

end Kernel

/-! ## The allocator on the machine -/

namespace Malloc.Rv64

/-- How the kernel answers a call of `sbrk`: whether it finds the pages, and whether the page of the new
header is mapped in case it is not below the break. -/
structure Answer where
  enough : Bool
  mapped : Bool

/-- A call of `morecore` that succeeded: the units it recorded and the break before and after. -/
structure Growth where
  units : Nat
  before : Nat
  after : Nat

/-- `nu * sizeof(Header)`, converted to the `int` that `sbrk` takes. -/
def sbrkArg (nu : Nat) : Int32 := Int32.ofNat (nu * 16)

/-- The units `morecore` asks for. -/
def atLeast (nu : Nat) : Nat := if nu < 4096 then 4096 else nu

/-- The heap when `morecore` calls `free`: the break has moved, and the header of the new block stands
where it was. -/
def grown (h : Heap) (nu brk : Nat) : Heap :=
  { h with brk := brk, regions := (h.brk, brk - h.brk) :: h.regions }.setSize h.brk nu

/-- `morecore`. `none`: the bound on the iterations of `free` was too small, or the store of the header
faults and the process is killed. -/
def morecore (fuel : Nat) (h : Heap) (nu : Nat) (answer : Answer) : Option (Nat × Heap × List Growth) :=
  let nu := atLeast nu
  let hp := h.brk
  match brkAfter hp (sbrkArg nu) answer.enough with
  | none => some (0, h, [])
  | some brk =>
    if hp + 16 ≤ brk ∨ answer.mapped then
      (free fuel (grown h nu brk) (hp + 16)).map fun h => (h.freep, h, [⟨nu, hp, brk⟩])
    else none

/-- The loop of `malloc`. -/
def mallocLoop (nunits : Nat) :
    Nat → Heap → (Nat → Answer) → Nat → Nat → Option (Nat × Heap × List Growth)
  | 0, _, _, _, _ => none
  | fuel + 1, h, answer, prevp, p =>
    if nunits ≤ h.size p then some ((take h nunits prevp p).1, (take h nunits prevp p).2, [])
    else if p = h.freep then
      match morecore fuel h nunits (answer 0) with
      | none => none
      | some (q, h', gs) =>
        if q = 0 then some (0, h', gs)
        else (mallocLoop nunits fuel h' (fun i => answer (i + 1)) q (h'.ptr q)).map
          fun x => (x.1, x.2.1, gs ++ x.2.2)
    else mallocLoop nunits fuel h answer p (h.ptr p)

/-- The units of a request, header included. -/
def units (nbytes : UInt32) : Nat := (nbytes.toNat + 16 - 1) / 16 + 1

/-- The first call of `malloc` sets the static header up. -/
def setUp (base : Nat) (h : Heap) : Heap :=
  if h.freep = 0 then ((h.setPtr base base).setSize base 0).setFreep base else h

/-- `malloc`, with what each call of `morecore` did. -/
def malloc (base fuel : Nat) (h : Heap) (nbytes : UInt32) (answer : Nat → Answer) :
    Option (Nat × Heap × List Growth) :=
  let h := setUp base h
  mallocLoop (units nbytes) fuel h answer h.freep (h.ptr h.freep)

/-! ## Conversions -/

theorem toInt_sbrkArg {nu : Nat} (h : nu < 2 ^ 27) : (sbrkArg nu).toInt = nu * 16 := by
  unfold sbrkArg
  rw [Int32.toInt_ofNat_of_lt (by omega)]
  push_cast
  rfl

/-- From 2^27 units on at most one unit is left of the request. -/
theorem toInt_sbrkArg_le {nu : Nat} (hlo : 2 ^ 27 ≤ nu) (hhi : nu ≤ 2 ^ 28 + 1) :
    (sbrkArg nu).toInt ≤ 16 := by
  unfold sbrkArg
  rw [Int32.toInt_ofNat']
  have hsize : Int32.size = 2 ^ 32 := rfl
  have hb : ((nu * 16 : Nat) : Int).bmod Int32.size =
    if ((nu * 16 : Nat) : Int) % Int32.size < (Int32.size + 1) / 2
    then ((nu * 16 : Nat) : Int) % Int32.size else ((nu * 16 : Nat) : Int) % Int32.size - Int32.size := rfl
  rw [hsize] at hb ⊢
  omega

theorem units_le (nbytes : UInt32) : units nbytes ≤ 2 ^ 28 + 1 := by
  have := nbytes.toNat_lt
  unfold units
  omega

/-- The requests whose size, with the header, fits an `int`. -/
theorem units_lt_iff {nbytes : UInt32} : units nbytes < 2 ^ 27 ↔ nbytes.toNat ≤ 2 ^ 31 - 32 := by
  unfold units
  omega

/-- The break is not raised by more than what `sbrk` was asked for. -/
theorem brkAfter_le {sz sz' : Nat} {n : Int32} {enough : Bool} (h : brkAfter sz n enough = some sz') :
    sz' ≤ sz + n.toInt.toNat := by
  unfold brkAfter at h
  split at h
  · next hn =>
      have hpos : 0 < n.toInt := by simpa using Int32.lt_iff_toInt_lt.mp hn
      split at h
      · cases h
      · obtain rfl := Option.some_inj.mp h
        unfold add64
        omega
  · split at h
    · obtain rfl := Option.some_inj.mp h
      exact (Nat.min_le_left _ _).trans (Nat.le_add_right _ _)
    · obtain rfl := Option.some_inj.mp h
      exact Nat.le_add_right _ _

/-- A request that fits is served in full, or not at all. -/
theorem brkAfter_fits {sz nu : Nat} {enough : Bool} (hsz : sz ≤ trapframe) (hpos : 0 < nu)
    (hnu : nu < 2 ^ 27) :
    brkAfter sz (sbrkArg nu) enough = none ∨
      (brkAfter sz (sbrkArg nu) enough = some (sz + nu * 16) ∧ sz + nu * 16 ≤ trapframe) := by
  have harg := toInt_sbrkArg hnu
  have hn : 0 < sbrkArg nu := by
    rw [Int32.lt_iff_toInt_lt, harg]
    simp
    omega
  have hadd : add64 sz (sbrkArg nu) = sz + nu * 16 := by
    rw [add64_of_nonneg hsz (by omega), harg]
    omega
  unfold brkAfter
  rw [if_pos hn, hadd]
  split
  · exact .inl rfl
  · next hfit =>
      rw [not_or] at hfit
      exact .inr ⟨rfl, Nat.not_lt.mp hfit.1⟩

/-! ## The loop -/

theorem free_brk {fuel ap : Nat} {h h' : Heap} (hfree : free fuel h ap = some h') : h'.brk = h.brk := by
  obtain ⟨p, -, rfl⟩ := Option.map_eq_some_iff.mp hfree
  unfold link mergeDown mergeUp
  split <;> split <;> rfl

theorem take_brk (h : Heap) (n prevp p : Nat) : (take h n prevp p).2.brk = h.brk := by
  unfold take
  split <;> rfl

section Loop

variable {n fuel p prevp q r : Nat} {h h' : Heap} {answer : Nat → Answer} {gs : List Growth}

/-- What `morecore` did: nothing, or a new region went to the list. -/
theorem morecore_cases {a : Answer} (hrun : morecore fuel h n a = some (q, h', gs)) :
    (q = 0 ∧ h' = h ∧ gs = [] ∧ brkAfter h.brk (sbrkArg (atLeast n)) a.enough = none) ∨
    ∃ brk, brkAfter h.brk (sbrkArg (atLeast n)) a.enough = some brk ∧
      free fuel (grown h (atLeast n) brk) (h.brk + 16) = some h' ∧ q = h'.freep ∧
      gs = [⟨atLeast n, h.brk, brk⟩] := by
  unfold morecore at hrun
  dsimp only at hrun
  cases hbrk : brkAfter h.brk (sbrkArg (atLeast n)) a.enough with
  | none =>
    rw [hbrk] at hrun
    obtain ⟨rfl, rfl, rfl⟩ : 0 = q ∧ h = h' ∧ [] = gs := by simpa using hrun
    exact .inl ⟨rfl, rfl, rfl, rfl⟩
  | some brk =>
    rw [hbrk] at hrun
    dsimp only at hrun
    split at hrun
    · obtain ⟨h₁, hfree, heq⟩ := Option.map_eq_some_iff.mp hrun
      obtain ⟨rfl, rfl, rfl⟩ : h₁.freep = q ∧ h₁ = h' ∧ [⟨atLeast n, h.brk, brk⟩] = gs := by
        simpa using heq
      exact .inr ⟨brk, rfl, hfree, rfl, rfl⟩
    · cases hrun

/-- What one round of the loop does: it takes the block, calls `morecore` at the end of the list and goes
on behind the new `freep`, or goes on with the next block. -/
theorem mallocLoop_cases (hrun : mallocLoop n (fuel + 1) h answer prevp p = some (r, h', gs)) :
    (n ≤ h.size p ∧ (r, h') = take h n prevp p ∧ gs = []) ∨
    (h.size p < n ∧ p = h.freep ∧ ∃ q h₁ gs₁, morecore fuel h n (answer 0) = some (q, h₁, gs₁) ∧
      ((q = 0 ∧ r = 0 ∧ h' = h₁ ∧ gs = gs₁) ∨
        (q ≠ 0 ∧ ∃ gs₂, gs = gs₁ ++ gs₂ ∧
          mallocLoop n fuel h₁ (fun i => answer (i + 1)) q (h₁.ptr q) = some (r, h', gs₂)))) ∨
    (h.size p < n ∧ p ≠ h.freep ∧ mallocLoop n fuel h answer p (h.ptr p) = some (r, h', gs)) := by
  unfold mallocLoop at hrun
  split at hrun
  · next hfit =>
      obtain ⟨rfl, rfl, rfl⟩ : _ = r ∧ _ = h' ∧ [] = gs := by simpa using hrun
      exact .inl ⟨hfit, rfl, rfl⟩
  · next hfit =>
      have hsmall : h.size p < n := Nat.not_le.mp hfit
      right
      split at hrun
      · next hfreep =>
          refine .inl ⟨hsmall, hfreep, ?_⟩
          cases hmore : morecore fuel h n (answer 0) with
          | none =>
            rw [hmore] at hrun
            cases hrun
          | some x =>
            obtain ⟨q, h₁, gs₁⟩ := x
            rw [hmore] at hrun
            dsimp only at hrun
            refine ⟨q, h₁, gs₁, rfl, ?_⟩
            split at hrun
            · next hq =>
                obtain ⟨rfl, rfl, rfl⟩ : 0 = r ∧ h₁ = h' ∧ gs₁ = gs := by simpa using hrun
                exact .inl ⟨hq, rfl, rfl, rfl⟩
            · next hq =>
                obtain ⟨⟨r', h'', gs₂⟩, hloop, heq⟩ := Option.map_eq_some_iff.mp hrun
                obtain ⟨rfl, rfl, rfl⟩ : r' = r ∧ h'' = h' ∧ gs₁ ++ gs₂ = gs := by simpa using heq
                exact .inr ⟨hq, gs₂, rfl, hloop⟩
      · next hfreep => exact .inr ⟨hsmall, hfreep, hrun⟩

/-- No block from `p` to `freep` is large enough. -/
def Exhausted (h : Heap) (n p : Nat) : Prop :=
  ∃ m, h.ptr^[m] p = h.freep ∧ ∀ i ≤ m, h.size (h.ptr^[i] p) < n

/-- **`malloc` takes a block of the list if there is one**: if no region was added it found one, or there
was no memory; if one was added it had seen the whole list. -/
theorem mallocLoop_list (hrun : mallocLoop n fuel h answer prevp p = some (r, h', gs)) :
    (gs = [] → r ≠ 0 → ∃ i, n ≤ h.size (h.ptr^[i] p)) ∧ (gs ≠ [] → Exhausted h n p) := by
  induction fuel generalizing prevp p with
  | zero => cases hrun
  | succ fuel ih =>
    rcases mallocLoop_cases hrun with ⟨hfit, -, rfl⟩ | ⟨hsmall, hfreep, q, h₁, gs₁, hmore, hrest⟩ |
      ⟨hsmall, hfreep, hloop⟩
    · exact ⟨fun _ _ => ⟨0, hfit⟩, fun hne => absurd rfl hne⟩
    · refine ⟨fun hgs hr => ?_, fun _ => ⟨0, hfreep, fun i hi => ?_⟩⟩
      · exfalso
        rcases morecore_cases hmore with ⟨hq, -, -, -⟩ | ⟨brk, -, -, -, rfl⟩
        · rcases hrest with ⟨-, h0, -⟩ | ⟨hne, -⟩
          · exact hr h0
          · exact hne hq
        · rcases hrest with ⟨-, -, -, rfl⟩ | ⟨-, gs₂, rfl, -⟩ <;> cases hgs
      · obtain rfl := Nat.le_zero.mp hi
        exact hsmall
    · obtain ⟨hfound, hexh⟩ := ih hloop
      refine ⟨fun hgs hr => ?_, fun hgs => ?_⟩
      · obtain ⟨i, hi⟩ := hfound hgs hr
        exact ⟨i + 1, hi⟩
      · obtain ⟨m, hm, hall⟩ := hexh hgs
        refine ⟨m + 1, hm, fun i hi => ?_⟩
        cases i with
        | zero => exact hsmall
        | succ i => exact hall i (by omega)

/-- A request that does not fit: the first region added is recorded with more than the break was raised
by. -/
theorem mallocLoop_short (hlo : 2 ^ 27 ≤ n) (hhi : n ≤ 2 ^ 28 + 1)
    (hrun : mallocLoop n fuel h answer prevp p = some (r, h', gs)) (hgs : gs ≠ []) :
    ∃ g ∈ gs, g.after < g.before + 16 * g.units := by
  induction fuel generalizing prevp p with
  | zero => cases hrun
  | succ fuel ih =>
    rcases mallocLoop_cases hrun with ⟨-, -, rfl⟩ | ⟨-, -, q, h₁, gs₁, hmore, hrest⟩ | ⟨-, -, hloop⟩
    · exact absurd rfl hgs
    · rcases morecore_cases hmore with ⟨hq, -, rfl, -⟩ | ⟨brk, hbrk, -, -, rfl⟩
      · rcases hrest with ⟨-, -, -, rfl⟩ | ⟨hne, -⟩
        · exact absurd rfl hgs
        · exact absurd hq hne
      · have hn : atLeast n = n := if_neg (by omega)
        rw [hn] at hbrk hrest
        have hmem : ⟨n, h.brk, brk⟩ ∈ gs := by
          rcases hrest with ⟨-, -, -, rfl⟩ | ⟨-, gs₂, rfl, -⟩
          · exact List.mem_cons_self
          · exact List.mem_append_left _ List.mem_cons_self
        have hle := brkAfter_le hbrk
        have harg := toInt_sbrkArg_le hlo hhi
        refine ⟨_, hmem, ?_⟩
        show brk < h.brk + 16 * n
        omega
    · exact ih hloop

/-- Without a new region the kernel plays no part. -/
theorem mallocLoop_idle (hrun : mallocLoop n fuel h answer prevp p = some (r, h', [])) :
    Malloc.mallocLoop n fuel h (fun _ => none) prevp p = some (r, h') ∧ h'.brk = h.brk := by
  induction fuel generalizing prevp p with
  | zero => cases hrun
  | succ fuel ih =>
    unfold Malloc.mallocLoop
    rcases mallocLoop_cases hrun with ⟨hfit, htake, -⟩ | ⟨hsmall, hfreep, q, h₁, gs₁, hmore, hrest⟩ |
      ⟨hsmall, hfreep, hloop⟩
    · rw [if_pos hfit, htake]
      exact ⟨rfl, (congrArg (·.2.brk) htake).trans (take_brk h n prevp p)⟩
    · rw [if_neg (Nat.not_le.mpr hsmall), if_pos hfreep]
      rcases morecore_cases hmore with ⟨hq, rfl, rfl, -⟩ | ⟨brk, -, -, -, rfl⟩
      · rcases hrest with ⟨-, rfl, rfl, -⟩ | ⟨hne, -⟩
        · exact ⟨rfl, rfl⟩
        · exact absurd hq hne
      · rcases hrest with ⟨-, -, -, he⟩ | ⟨-, gs₂, he, -⟩ <;> cases he
    · rw [if_neg (Nat.not_le.mpr hsmall), if_neg hfreep]
      exact ih hloop

/-- A request that fits: the loop is that of the heap with an exact `sbrk`. -/
theorem mallocLoop_exact (hbrk : h.brk ≤ trapframe) (hn : n < 2 ^ 27)
    (hrun : mallocLoop n fuel h answer prevp p = some (r, h', gs)) :
    (∃ answer', Malloc.mallocLoop n fuel h answer' prevp p = some (r, h')) ∧ h'.brk ≤ trapframe ∧
      ∀ g ∈ gs, g.after = g.before + 16 * g.units := by
  induction fuel generalizing h answer prevp p gs with
  | zero => cases hrun
  | succ fuel ih =>
    rcases mallocLoop_cases hrun with ⟨hfit, htake, rfl⟩ | ⟨hsmall, hfreep, q, h₁, gs₁, hmore, hrest⟩ |
      ⟨hsmall, hfreep, hloop⟩
    · refine ⟨⟨fun _ => none, ?_⟩, ?_, fun g hg => absurd hg List.not_mem_nil⟩
      · rw [Malloc.mallocLoop, if_pos hfit, htake]
      · rw [congrArg (·.2.brk) htake, take_brk]
        exact hbrk
    · rcases morecore_cases hmore with ⟨hq, rfl, rfl, -⟩ | ⟨brk, hgrow, hfree, hq, rfl⟩
      · rcases hrest with ⟨-, rfl, rfl, rfl⟩ | ⟨hne, -⟩
        · refine ⟨⟨fun _ => none, ?_⟩, hbrk, fun g hg => absurd hg List.not_mem_nil⟩
          rw [Malloc.mallocLoop, if_neg (Nat.not_le.mpr hsmall), if_pos hfreep]
          rfl
        · exact absurd hq hne
      · have hpos : 0 < atLeast n := by
          unfold atLeast
          split <;> omega
        have hlt : atLeast n < 2 ^ 27 := by
          unfold atLeast
          split <;> omega
        obtain ⟨hbrk', hfit⟩ : brk = h.brk + atLeast n * 16 ∧ brk ≤ trapframe := by
          rcases brkAfter_fits hbrk hpos hlt with hnone | ⟨hsome, hle⟩
          · rw [hnone] at hgrow
            cases hgrow
          · rw [hsome] at hgrow
            obtain rfl := Option.some_inj.mp hgrow
            exact ⟨rfl, hle⟩
        have hgrown : grown h (atLeast n) brk = (h.grow 0 (atLeast n * 16)).setSize h.brk (atLeast n) := by
          unfold grown Heap.grow
          rw [hbrk', Nat.add_sub_cancel_left]
          rfl
        have hmore' : Malloc.morecore fuel h n (some 0) = some (q, h₁) := by
          rw [hgrown] at hfree
          unfold Malloc.morecore
          exact Option.map_eq_some_iff.mpr ⟨h₁, hfree, by rw [hq]⟩
        have hexact : ∀ g ∈ [(⟨atLeast n, h.brk, brk⟩ : Growth)], g.after = g.before + 16 * g.units := by
          intro g hg
          obtain rfl := List.mem_singleton.mp hg
          show brk = h.brk + 16 * atLeast n
          omega
        have hbrk₁ : h₁.brk ≤ trapframe := by
          rw [free_brk hfree]
          exact hfit
        rcases hrest with ⟨hq0, rfl, rfl, rfl⟩ | ⟨hq0, gs₂, rfl, hloop⟩
        · refine ⟨⟨fun _ => some 0, ?_⟩, hbrk₁, hexact⟩
          rw [Malloc.mallocLoop, if_neg (Nat.not_le.mpr hsmall), if_pos hfreep, hmore']
          show (if q = 0 then _ else _) = _
          rw [if_pos hq0]
        · obtain ⟨⟨answer', hloop'⟩, hbrk'', hexact'⟩ := ih hbrk₁ hloop
          refine ⟨⟨fun i => Nat.casesOn i (some 0) answer', ?_⟩, hbrk'', fun g hg => ?_⟩
          · rw [Malloc.mallocLoop, if_neg (Nat.not_le.mpr hsmall), if_pos hfreep,
              show Malloc.morecore fuel h n (Nat.casesOn 0 (some 0) answer') = _ from hmore']
            show (if q = 0 then _ else _) = _
            rw [if_neg hq0]
            exact hloop'
          · rcases List.mem_append.mp hg with hg | hg
            · exact hexact g hg
            · exact hexact' g hg
    · obtain ⟨⟨answer', hloop'⟩, hrest⟩ := ih hbrk hloop
      refine ⟨⟨answer', ?_⟩, hrest⟩
      rw [Malloc.mallocLoop, if_neg (Nat.not_le.mpr hsmall), if_neg hfreep]
      exact hloop'

end Loop

/-! ## Runs -/

/-- Some block of the free list has the units asked for. -/
def Available (h : Heap) (nbytes : UInt32) : Prop :=
  h.freep ≠ 0 ∧ ∃ i, units nbytes ≤ h.size (h.ptr^[i] h.freep)

/-- The request is served from the free list, or is one that `sbrk` can be asked for. -/
def Fits (h : Heap) (nbytes : UInt32) : Prop := nbytes.toNat ≤ 2 ^ 31 - 32 ∨ Available h nbytes

/-- The program calls `malloc`, which returns `r`; raises its break itself; or does something else with
the heap. -/
inductive Act where
  | malloc (nbytes : UInt32) (answer : Nat → Answer) (r : Nat)
  | sbrk (n : Nat)
  | other (a : Malloc.Act)

/-- The actions other than `malloc`. -/
def Other : Malloc.Act → Prop
  | .malloc .. => False
  | _ => True

inductive Step (base : Nat) : State → Act → State → Prop
  | fail {s fuel nbytes answer h' gs}
      (hrun : malloc base fuel s.heap nbytes answer = some (0, h', gs)) :
      Step base s (.malloc nbytes answer 0) ⟨h', s.live⟩
  | malloc {s fuel nbytes answer b h' gs}
      (hrun : malloc base fuel s.heap nbytes answer = some (b + 16, h', gs)) :
      Step base s (.malloc nbytes answer (b + 16)) ⟨h', update s.live b (some nbytes.toNat)⟩
  | sbrk {s n} (hn : s.heap.brk + n ≤ trapframe) :
      Step base s (.sbrk n) { s with heap.brk := s.heap.brk + n }
  | other {s s' a} (ha : Other a) (hstep : Malloc.Step base s a s') : Step base s (.other a) s'

/-- The requests of a run all fit. -/
def Modest (s : State) : Act → Prop
  | .malloc nbytes _ _ => Fits s.heap nbytes
  | _ => True

/-- The heap is in order and ends in user memory. -/
def Sound (base : Nat) (s : State) : Prop := Inv base s ∧ s.heap.brk ≤ trapframe

variable {base fuel r : Nat} {s s' : State} {h h' : Heap} {nbytes : UInt32} {answer : Nat → Answer}
  {gs : List Growth}

theorem setUp_brk (base : Nat) (h : Heap) : (setUp base h).brk = h.brk := by
  unfold setUp
  split <;> rfl

/-- The static header is too small for every request. -/
theorem setUp_available (i : Nat)
    (hi : units nbytes ≤ (setUp base h).size ((setUp base h).ptr^[i] (setUp base h).freep)) :
    Available h nbytes := by
  by_cases h0 : h.freep = 0
  · have hself : ∀ i, (setUp base h).ptr^[i] (setUp base h).freep = base := by
      intro i
      have hfix : (setUp base h).ptr base = base := by simp [setUp, h0]
      have hfreep : (setUp base h).freep = base := by
        unfold setUp
        rw [if_pos h0]
        rfl
      rw [hfreep]
      exact Function.iterate_fixed hfix i
    rw [hself, setUp, if_pos h0] at hi
    simp [units] at hi
  · rw [setUp, if_neg h0] at hi
    exact ⟨h0, i, hi⟩

/-- A block of the list is taken if there is one. -/
theorem malloc_of_available (hrun : malloc base fuel h nbytes answer = some (r, h', gs))
    (hav : Available h nbytes) : gs = [] := by
  obtain ⟨h0, i, hi⟩ := hav
  by_contra hgs
  obtain ⟨m, hm, hall⟩ := (mallocLoop_list hrun).2 hgs
  have hsame : setUp base h = h := if_neg h0
  rw [hsame] at hm hall
  -- the list is a ring of `m + 1` blocks, all of them too small
  have hring : Function.IsPeriodicPt h.ptr (m + 1) h.freep := hm
  rw [← hring.iterate_mod_apply i] at hi
  have hlt := Nat.mod_lt i (Nat.succ_pos m)
  revert hi hlt
  generalize i % (m + 1) = k
  intro hi hlt
  cases k with
  | zero =>
    have hlast := hall m le_rfl
    rw [hm] at hlast
    exact absurd hi (Nat.not_le.mpr hlast)
  | succ k => exact absurd hi (Nat.not_le.mpr (hall k (by omega)))

theorem available_of_malloc (hrun : malloc base fuel h nbytes answer = some (r, h', [])) (hr : r ≠ 0) :
    Available h nbytes := by
  obtain ⟨i, hi⟩ := (mallocLoop_list hrun).1 rfl hr
  exact setUp_available (i + 1) hi

/-- A call that fits does what it does in the heap with an exact `sbrk`. -/
theorem malloc_exact (hbrk : h.brk ≤ trapframe) (hfit : Fits h nbytes)
    (hrun : malloc base fuel h nbytes answer = some (r, h', gs)) :
    (∃ answer', Malloc.malloc base fuel h nbytes answer' = some (r, h')) ∧ h'.brk ≤ trapframe ∧
      ∀ g ∈ gs, g.after = g.before + 16 * g.units := by
  have hbrk' : (setUp base h).brk ≤ trapframe := by rwa [setUp_brk]
  by_cases hsmall : nbytes.toNat ≤ 2 ^ 31 - 32
  · exact mallocLoop_exact hbrk' (units_lt_iff.mpr hsmall) hrun
  · obtain rfl := malloc_of_available hrun (hfit.resolve_left hsmall)
    obtain ⟨hidle, hsame⟩ := mallocLoop_idle hrun
    exact ⟨⟨_, hidle⟩, hsame.le.trans hbrk', fun g hg => absurd hg List.not_mem_nil⟩

/-- The heap with a higher break. -/
theorem Ok.raise {live : Nat → Option Nat} {F L : Finset Nat} (hok : Malloc.Ok base h live F L) (n : Nat) :
    Malloc.Ok base { h with brk := h.brk + n } live F L where
  layout := ⟨hok.layout.base_le, hok.layout.apart, hok.layout.inside,
    fun b hb => (hok.layout.below b hb).trans (Nat.le_add_right _ _), hok.layout.size_lt⟩
  ring := hok.ring
  base_mem := hok.base_mem
  base_size := hok.base_size
  coalesced := hok.coalesced
  loose := hok.loose
  free := hok.free
  enough := hok.enough

theorem other_brk {a : Malloc.Act} (ha : Other a) (hstep : Malloc.Step base s a s') :
    s'.heap.brk = s.heap.brk := by
  cases hstep with
  | fail hrun => exact ha.elim
  | malloc hrun => exact ha.elim
  | free hlive hrun => exact free_brk hrun
  | store hlive hlow hhigh => rfl

/-- Every step with a request that fits keeps the heap sound. -/
theorem Sound.step {a : Act} (hs : Sound base s) (hbase : 0 < base) (hm : Modest s a)
    (hstep : Step base s a s') : Sound base s' := by
  cases hstep with
  | fail hrun =>
    obtain ⟨⟨answer', hexact⟩, hbrk, -⟩ := malloc_exact hs.2 hm hrun
    exact ⟨hs.1.step hbase (.fail hexact), hbrk⟩
  | malloc hrun =>
    obtain ⟨⟨answer', hexact⟩, hbrk, -⟩ := malloc_exact hs.2 hm hrun
    exact ⟨hs.1.step hbase (.malloc hexact), hbrk⟩
  | @sbrk n hn =>
    refine ⟨?_, hn⟩
    rcases hs.1 with ⟨h0, hbrk, hlive⟩ | ⟨F, hok, hfreep⟩
    · exact .inl ⟨h0, hbrk.trans (Nat.le_add_right _ _), hlive⟩
    · exact .inr ⟨F, Ok.raise hok n, hfreep⟩
  | other ha hstep =>
    refine ⟨hs.1.step hbase hstep, ?_⟩
    rw [other_brk ha hstep]
    exact hs.2

theorem Sound.run {mem : Nat → Header} {brk : Nat} {as : List Act} (hbase : 0 < base)
    (hbrk : base + 16 ≤ brk) (htop : brk ≤ trapframe)
    (hrun : Run (Guarded (Step base) Modest) (.start mem brk) as s) :
    Sound base s :=
  hrun.invariant ⟨.inl ⟨rfl, hbrk, fun _ => rfl⟩, htop⟩
    fun _ _ _ hs hstep => hs.step hbase hstep.1 hstep.2

/-- Every block that `morecore` added is recorded with the units by which the break was raised, and the
block returned lies below the break and has room for the request. -/
def Exact (nbytes : UInt32) (r : Nat) (h : Heap) (gs : List Growth) : Prop :=
  (∀ g ∈ gs, g.after = g.before + 16 * g.units) ∧
  ∃ b, r = b + 16 ∧ b + 16 * h.size b ≤ h.brk ∧ nbytes.toNat + 16 ≤ 16 * h.size b

/-- **Heap growth is exact precisely for requests that fit.** In a heap whose requests so far all did,
when `malloc` returns a block: the regions added have the size recorded for them, and the block lies
below the break with room for the request, if and only if the request is at most 2^31 - 32 bytes or the
free list has a block for it. -/
theorem malloc_growth_iff {mem : Nat → Header} {brk : Nat} {as : List Act} (hbase : 0 < base)
    (hbrk : base + 16 ≤ brk) (htop : brk ≤ trapframe)
    (hpast : Run (Guarded (Step base) Modest) (.start mem brk) as s)
    (hrun : malloc base fuel s.heap nbytes answer = some (r, h', gs)) (hr : r ≠ 0) :
    Exact nbytes r h' gs ↔ nbytes.toNat ≤ 2 ^ 31 - 32 ∨ Available s.heap nbytes := by
  have hs := Sound.run hbase hbrk htop hpast
  constructor
  · rintro ⟨hexact, -⟩
    by_contra hno
    rw [not_or] at hno
    have hlo : 2 ^ 27 ≤ units nbytes := Nat.not_lt.mp fun h => hno.1 (units_lt_iff.mp h)
    have hgs : gs ≠ [] := by
      rintro rfl
      exact hno.2 (available_of_malloc hrun hr)
    obtain ⟨g, hg, hlt⟩ := mallocLoop_short hlo (units_le nbytes) hrun hgs
    exact absurd (hexact g hg) hlt.ne
  · intro hfit
    obtain ⟨⟨answer', hexact⟩, -, hgs⟩ := malloc_exact hs.2 hfit hrun
    obtain ⟨f, r', h'', hret, F, -, hserved⟩ := hs.1.malloc_returns hbase nbytes answer'
    have heq := hret (max f fuel) (le_max_left _ _)
    rw [malloc_mono hexact (le_max_right _ _)] at heq
    cases heq
    refine ⟨hgs, ?_⟩
    rcases hserved with ⟨h0, -⟩ | ⟨b, rfl, -, hok⟩
    · exact absurd h0 hr
    · have hlive : update s.live b (some nbytes.toNat) b = some nbytes.toNat :=
        update_self ..
      have hbelow := hok.layout.below b (Ok.mem_live hlive)
      have hfoot : h'.size b ≤ h'.foot b := le_max_right _ _
      exact ⟨b, rfl, by omega, hok.enough b _ hlive⟩

/-- A first request of 2^32 - 1 bytes: `sbrk` is asked for 16 bytes, and the block returned ends 4 GiB above
the break. -/
theorem malloc_growth_truncated : ∃ h' g,
    malloc 0x2000 3 (State.start (fun _ => ⟨7, 7⟩) 0x4000).heap 0xffffffff (fun _ => ⟨true, true⟩) =
      some (0x4010, h', [g]) ∧
    g.units = 2 ^ 28 + 1 ∧ g.after = g.before + 16 ∧
    ¬ Exact 0xffffffff 0x4010 h' [g] := by
  refine ⟨_, _, rfl, rfl, rfl, ?_⟩
  rintro ⟨hexact, -⟩
  exact absurd (hexact _ List.mem_cons_self) (by decide)

/-- A first request of ten bytes is exact. -/
theorem malloc_growth_iff_small : ∃ h' gs,
    malloc 0x2000 3 (State.start (fun _ => ⟨7, 7⟩) 0x4000).heap 10 (fun _ => ⟨true, true⟩) =
      some (0x13ff0, h', gs) ∧ Exact 10 0x13ff0 h' gs := by
  have hpast : Run (Guarded (Step 0x2000) Modest)
    (.start (fun _ => ⟨7, 7⟩) 0x4000) [] _ := .nil
  have hret : (malloc 0x2000 3 (State.start (fun _ => ⟨7, 7⟩) 0x4000).heap 10
    (fun _ => ⟨true, true⟩)).map (·.1) = some 0x13ff0 := rfl
  obtain ⟨⟨r, h', gs⟩, hrun, rfl⟩ := Option.map_eq_some_iff.mp hret
  exact ⟨h', gs, hrun, (malloc_growth_iff (by decide) (by decide) (by decide) hpast hrun
    (by decide)).mpr (.inl (by decide))⟩

end Malloc.Rv64

end Xv6
