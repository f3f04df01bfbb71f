import Xv6.Vm.ProcSpec

/-!
# Processes come, grow and multiply

`allocproc`, `growproc`, `sys_sbrk` and `kfork` under the invariant. A call that fails, at whatever
point, gives back everything it took, so that the processes it found are as they were.
-/

namespace Xv6

open Function

variable {D : Type} [SwapStore D] {k k' k₁ : Kernel D} {g g₁ : Ledger} {pa : Nat} {me p : ProcId}

open TraceM

/-! ## `allocproc` -/

/-- The processes in use are as they were, and no other came into being. -/
structure Settles (k k' : Kernel D) : Prop where
  ready : ∃ g', Ready .plain g' k'
  spaces : Spaces k'
  live : ∀ q, (k.proc q).state ≠ .unused → (k.proc q).SameButStats (k'.proc q)
  idle : ∀ q, (k.proc q).state = .unused → (k'.proc q).state = .unused

/-- The slot `p` was vacant and is a process with an empty address space now. -/
structure Claimed (p : ProcId) (k k' : Kernel D) : Prop where
  ready : ∃ g', Ready .plain g' k'
  spaces : Spaces k'
  vacant : (k.proc p).state = .unused
  used : (k'.proc p).state = .used
  size : (k'.proc p).sz = 0
  table : (k'.proc p).pagetable ≠ 0
  user : k'.tables.EmptyFrom (k'.proc p).pagetable 0
  others : ∀ q, q ≠ p → (k.proc q).SameButStats (k'.proc q)

omit [SwapStore D] in
theorem Kernel.updProc_of_fixed {f : Proc → Proc} (h : f (k.proc p) = k.proc p) : k.updProc p f = k := by
  unfold Kernel.updProc
  rw [h, update_eq_self]

omit [SwapStore D] in
/-- A process without a table has its address space in order, whatever else it is. -/
theorem SpaceOk.of_none {T : Tables} {tramp : Nat} {q : Proc} (hpt : q.pagetable = 0)
    (hsz : q.sz ≤ trapframe) (hst : q.state ≠ .unused) : SpaceOk T tramp q :=
  ⟨hsz, fun h => absurd hpt h, fun h => absurd hpt h, fun h => absurd hpt h, fun h => absurd h hst⟩

omit [SwapStore D] in
/-- A page in the hands of the caller becomes the trapframe of a process that has none. -/
theorem Ready.giveTrapframe (h : Ready .plain g k) (hpa : g pa = .held) :
    Ready .plain (update g pa (.trapframe p))
      (k.updProc p fun q => { q with trapframe := pa }) := by
  have hroots : (fun q => ((k.updProc p fun q => { q with trapframe := pa }).proc q).pagetable) =
      fun q => (k.proc q).pagetable :=
    funext fun q => Kernel.updProc_pagetable (k := k) (f := fun q => { q with trapframe := pa })
      (fun _ => rfl) p q
  have htraps : (fun q => ((k.updProc p fun q => { q with trapframe := pa }).proc q).trapframe) =
      update (fun q => (k.proc q).trapframe) p pa := by
    funext q
    show (update k.proc p { k.proc p with trapframe := pa } q).trapframe = _
    by_cases hq : q = p
    · rw [hq, update_self, update_self]
    · rw [update_of_ne hq, update_of_ne hq]
  refine ⟨⟨?_, ?_, ?_, ?_, ?_, fun _ _ hx => by cases hx⟩, h.lock⟩
  · exact h.inv.free.reown (by rw [hpa]; simp) (by rw [hpa]; simp)
  · exact h.inv.tree.reown (by rw [hpa]; rfl)
  · rw [htraps]
    exact h.inv.trap.claim (by rw [hpa]; simp) p
  · exact h.inv.pages.reown (by rw [hpa]; simp) (by rw [hpa]; rfl)
  · rw [hroots]
    exact h.inv.frames

/-- The slot `p` was vacant, and `allocproc` is setting it up: it has no table yet. -/
structure Opening (p : ProcId) (k k' : Kernel D) : Prop where
  spaces : Spaces k'
  vacant : (k.proc p).state = .unused
  used : (k'.proc p).state = .used
  size : (k'.proc p).sz = 0
  table : (k'.proc p).pagetable = 0
  others : ∀ q, q ≠ p → (k.proc q).SameButStats (k'.proc q)

namespace Opening

omit [SwapStore D] in
/-- `allocproc` claims the slot. -/
theorem claim (hs : Spaces k) (hp : (k.proc p).state = .unused) :
    Opening p k (({ k with nextpid := k.nextpid + 1 } : Kernel D).updProc p fun q => q.claim k.nextpid) := by
  obtain ⟨hpt, -, hsz⟩ := (hs.each p).vacant hp
  have hself : (({ k with nextpid := k.nextpid + 1 } : Kernel D).updProc p fun q => q.claim k.nextpid).proc p =
      (k.proc p).claim k.nextpid := update_self ..
  refine ⟨?_, hp, by rw [hself]; rfl, by rw [hself]; exact hsz, by rw [hself]; exact hpt, fun q hq => ?_⟩
  · exact Spaces.updProc (k := { k with nextpid := k.nextpid + 1 }) ⟨hs.null, hs.each, hs.owner, hs.inj⟩
      (fun _ => rfl) (.of_none hpt (hs.each p).size ProcState.noConfusion)
  · show (k.proc q).SameButStats (update k.proc p _ q)
    rw [update_of_ne hq]
    rfl

omit [SwapStore D] in
theorem calm (h : Opening p k k₁) (hc : Calm none (fun _ _ => False) k₁ k') : Opening p k k' where
  spaces := h.spaces.calm hc fun _ _ => False.elim
  vacant := h.vacant
  used := (hc.procs p).state.trans h.used
  size := (hc.procs p).sz.trans h.size
  table := (hc.procs p).pagetable.trans h.table
  others q hq := (h.others q hq).trans (hc.procs q)

omit [SwapStore D] in
theorem setTrapframe (h : Opening p k k₁) (tf : Nat) :
    Opening p k (k₁.updProc p fun q => { q with trapframe := tf }) := by
  have hself : (k₁.updProc p fun q => { q with trapframe := tf }).proc p = { k₁.proc p with trapframe := tf } :=
    update_self ..
  refine ⟨h.spaces.updProc (fun _ => rfl) (.of_none h.table ?_ ?_), h.vacant, ?_, ?_, ?_, fun q hq => ?_⟩
  · rw [h.size]
    exact Nat.zero_le _
  · rw [h.used]
    exact ProcState.noConfusion
  · rw [hself]
    exact h.used
  · rw [hself]
    exact h.size
  · rw [hself]
    exact h.table
  · show (k.proc q).SameButStats (update k₁.proc p _ q)
    rw [update_of_ne hq]
    exact h.others q hq

/-- Back to a vacant slot. -/
theorem freeproc (h : Opening p k k₁) (hready : Ready .plain g k₁) :
    Sat (watch .plain) (Xv6.freeproc p) (fun _ k' => Settles k k') k₁ := by
  apply (freeproc_spec (watch_allowed id) hready h.spaces).mono
  intro _ k' hf
  refine ⟨hf.ready, hf.spaces, fun q hq => ?_, fun q hq => ?_⟩
  · have hqp : q ≠ p := by
      rintro rfl
      exact hq h.vacant
    exact (h.others q hqp).trans (hf.others q hqp)
  · by_cases hqp : q = p
    · rw [hqp]
      exact hf.self
    · rw [((h.others q hqp).trans (hf.others q hqp)).state]
      exact hq

omit [SwapStore D] in
/-- The new table is the one of the process. -/
theorem adopt (h : Opening p k k₁) {pt : Nat} (hc : Created (k₁.proc p).trapframe pt k₁ k') (hpt : pt ≠ 0)
    (hready : Ready .plain g k') : Claimed p k (k'.updProc p fun q => { q with pagetable := pt }) := by
  have hself : (k'.updProc p fun q => { q with pagetable := pt }).proc p = { k'.proc p with pagetable := pt } :=
    update_self ..
  have hsame := hc.apart.procs p
  refine ⟨⟨g, hready.setTable ?_ fun _ => rfl⟩, h.spaces.adopt hc hpt h.table ?_, h.vacant, ?_, ?_, ?_, ?_,
    fun q hq => ?_⟩
  · rw [hsame.pagetable, h.table]
    have hnull := hc.apart.tables 0 hpt.symm
    rw [h.spaces.null] at hnull
    simpa using hnull
  · rw [h.used]
    exact ProcState.noConfusion
  · rw [hself]
    exact hsame.state.trans h.used
  · rw [hself]
    exact hsame.sz.trans h.size
  · rw [hself]
    exact hpt
  · rw [hself]
    exact hc.user
  · show (k.proc q).SameButStats (update k'.proc p _ q)
    rw [update_of_ne hq]
    exact (h.others q hq).trans (hc.apart.procs q)

end Opening

/-- **`allocproc`** sets up a vacant slot, or leaves everything as it was. -/
theorem allocproc_spec (h : Ready .plain g k) (hs : Spaces k) :
    Sat (watch .plain) (allocproc me) (fun res k' => match res with
      | none => Settles k k'
      | some p => Claimed p k k') k := by
  unfold allocproc
  apply Sat.seq_get
  cases hfind : firstIdx fun p => (k.proc p).state == .unused with
  | none => exact Sat.ret ⟨⟨g, h⟩, hs, fun _ _ => rfl, fun _ => id⟩
  | some p =>
    have hvacant : (k.proc p).state = .unused := by simpa using firstIdx_holds hfind
    apply Sat.seq_run rfl
    apply Sat.seq_update
    have hready₀ : Ready .plain g (({ k with nextpid := k.nextpid + 1 } : Kernel D).updProc p
        fun q => q.claim k.nextpid) := by
      refine Ready.setProc (k := { k with nextpid := k.nextpid + 1 }) ?_ rfl rfl
      exact ⟨⟨h.inv.free, h.inv.tree, h.inv.trap, h.inv.pages, h.inv.frames, h.inv.extra⟩, h.lock⟩
    -- the trapframe
    apply Sat.seq
    apply (kalloc_spec (R := fun _ _ _ => True) me hready₀).mono
    rintro tf k₁ ⟨g₁, hready₁, hquiet, -, hgot⟩
    have hopen₁ : Opening p k k₁ := (Opening.claim hs hvacant).calm hquiet.calm
    have hopen₂ := hopen₁.setTrapframe tf
    apply Sat.seq_update
    by_cases h0 : tf = 0
    · subst h0
      have htf : (k₁.proc p).trapframe = 0 := by
        rw [(hquiet.procs p).trapframe]
        show (update k.proc p ((k.proc p).claim k.nextpid) p).trapframe = 0
        rw [update_self]
        exact ((hs.each p).vacant hvacant).2.1
      rw [if_pos rfl]
      apply Sat.seq
      exact (hopen₂.freeproc (hready₁.setProc rfl htf.symm)).mono fun _ _ hsettles => Sat.ret hsettles
    · rw [if_neg h0]
      obtain ⟨hheld, -⟩ := hgot.held h0
      apply Sat.seq
      apply (procPagetable_spec (p := p) (hready₁.giveTrapframe hheld)).mono
      rintro pt k₃ ⟨⟨g₃, hready₃⟩, ⟨rfl, hcalm⟩ | ⟨hpt0, hcreated⟩⟩
      · have hopen₃ := hopen₂.calm hcalm
        apply Sat.seq_update
        rw [if_pos rfl, Kernel.updProc_of_fixed (by rw [← hopen₃.table])]
        apply Sat.seq
        exact (hopen₃.freeproc hready₃).mono fun _ _ hsettles => Sat.ret hsettles
      · apply Sat.seq_update
        rw [if_neg hpt0]
        exact Sat.ret (hopen₂.adopt hcreated hpt0 hready₃)

/-! ## Consistent kernels -/

/-- Between two calls: the bookkeeping is right, the address spaces are in order, and every process in
use has one. -/
structure Consistent (k : Kernel D) : Prop where
  ready : ∃ g, Ready .plain g k
  spaces : Spaces k
  live : ∀ p, (k.proc p).state ≠ .unused → (k.proc p).pagetable ≠ 0

section Changes

omit [SwapStore D]

theorem Settles.consistent (h : Settles k k') (hk : Consistent k) : Consistent k' := by
  refine ⟨h.ready, h.spaces, fun q hq => ?_⟩
  by_cases hu : (k.proc q).state = .unused
  · exact absurd (h.idle q hu) hq
  · rw [(h.live q hu).pagetable]
    exact hk.live q hu

theorem Claimed.consistent (h : Claimed p k k') (hk : Consistent k) : Consistent k' := by
  refine ⟨h.ready, h.spaces, fun q hq => ?_⟩
  by_cases hqp : q = p
  · rw [hqp]
    exact h.table
  · have hsame := h.others q hqp
    rw [hsame.pagetable]
    exact hk.live q (by rw [← hsame.state]; exact hq)

theorem Freed.consistent (h : Freed p k k') (hk : Consistent k) : Consistent k' := by
  refine ⟨h.ready, h.spaces, fun q hq => ?_⟩
  have hqp : q ≠ p := by
    rintro rfl
    exact hq h.self
  have hsame := h.others q hqp
  rw [hsame.pagetable]
  exact hk.live q (by rw [← hsame.state]; exact hq)

variable {X : Nat → Vpn → Prop} {s : Nat}

/-- Filling pages below the sizes of their processes. -/
theorem Consistent.calm (h : Consistent k) (hready : ∃ g, Ready .plain g k') (hc : Calm none X k k')
    (hX : ∀ p v, X (k.proc p).pagetable v → v.addr < pgroundup (k.proc p).sz) : Consistent k' := by
  refine ⟨hready, h.spaces.calm hc hX, fun q hq => ?_⟩
  rw [(hc.procs q).pagetable]
  exact h.live q (by rw [← (hc.procs q).state]; exact hq)

/-- A process changes but keeps its table, its trapframe and its place. -/
theorem Consistent.updProc (h : Consistent k) {f : Proc → Proc} (hpt : ∀ q, (f q).pagetable = q.pagetable)
    (htf : ∀ q, (f q).trapframe = q.trapframe) (hp : (k.proc p).state ≠ .unused)
    (hspace : SpaceOk k.tables k.image.trampoline (f (k.proc p))) : Consistent (k.updProc p f) := by
  obtain ⟨g, hready⟩ := h.ready
  refine ⟨⟨g, hready.setProc (hpt _) (htf _)⟩, h.spaces.updProc hpt hspace, fun q hq => ?_⟩
  rw [Kernel.updProc_pagetable (k := k) hpt p q]
  by_cases hqp : q = p
  · rw [hqp]
    exact h.live p hp
  · apply h.live q
    change (update k.proc p _ q).state ≠ _ at hq
    rwa [update_of_ne hqp] at hq

/-- The size changes to one that still covers the user pages. -/
theorem SpaceOk.resize {T : Tables} {tramp : Nat} {q : Proc} (h : SpaceOk T tramp q) (hs : s ≤ trapframe)
    (habove : q.pagetable ≠ 0 → T.EmptyFrom q.pagetable (pgroundup s)) (hst : q.state ≠ .unused) :
    SpaceOk T tramp { q with sz := s } :=
  ⟨hs, h.table, habove, h.special, fun hu => absurd hu hst⟩

theorem Tables.EmptyFrom.mono {T : Tables} {r a b : Nat} (h : T.EmptyFrom r a) (hab : a ≤ b) :
    T.EmptyFrom r b :=
  fun v hv hb => h v hv (hab.trans hb)

/-- A larger size. -/
theorem Consistent.enlarge (h : Consistent k) (hp : (k.proc p).state ≠ .unused)
    (hle : (k.proc p).sz ≤ s) (hs : s ≤ trapframe) :
    Consistent (k.updProc p fun q => { q with sz := s }) := by
  have hspace := h.spaces.each p
  refine h.updProc (fun _ => rfl) (fun _ => rfl) hp (hspace.resize hs ?_ hp)
  exact fun h0 => (hspace.above h0).mono (pgroundup_mono hle)

/-- A change of sizes goes along with calm changes. -/
theorem Calm.resized (h : Calm none X k k') (p : ProcId) (s : Nat) :
    Calm none X (k.updProc p fun q => { q with sz := s }) (k'.updProc p fun q => { q with sz := s }) := by
  refine ⟨fun q => ?_, h.image, h.tables, h.special, h.empty, h.extra⟩
  show (update k.proc p _ q).SameButStats (update k'.proc p _ q)
  by_cases hq : q = p
  · rw [hq, update_self, update_self]
    show { k'.proc p with sz := s } = _
    rw [show k'.proc p = _ from h.procs p]
  · rw [update_of_ne hq, update_of_ne hq]
    exact h.procs q

/-- Pages of `p` are filled up to the new size. -/
theorem Consistent.grow (h : Consistent k) (hp : (k.proc p).state ≠ .unused) (hle : (k.proc p).sz ≤ s)
    (hs : s ≤ trapframe) (hready : ∃ g, Ready .plain g k') (hc : Calm none X k k')
    (hX : ∀ q v, X (k.proc q).pagetable v → v.addr < pgroundup (if q = p then s else (k.proc q).sz)) :
    Consistent (k'.updProc p fun q => { q with sz := s }) := by
  obtain ⟨g, hready⟩ := hready
  refine (h.enlarge hp hle hs).calm ⟨g, hready.setProc rfl rfl⟩ (hc.resized p s) ?_
  intro q v
  show X (update k.proc p _ q).pagetable v →
    v.addr < pgroundup (update k.proc p _ q).sz
  have hq := hX q v
  by_cases hqp : q = p
  · rw [if_pos hqp, hqp] at hq
    rw [hqp, update_self]
    exact hq
  · rw [if_neg hqp] at hq
    rw [update_of_ne hqp]
    exact hq

end Changes

/-! ## `growproc` and `sys_sbrk` -/

theorem add64_of_nonneg {a : Nat} {n : Int32} (ha : a ≤ trapframe) (hn : 0 ≤ n.toInt) :
    add64 a n = a + n.toInt.toNat := by
  have hlt := Int32.toInt_lt n
  have hmax : trapframe < 2 ^ 38 := by decide
  unfold add64
  omega

/-- **`growproc`**, for any argument. -/
theorem growproc_spec (h : Consistent k) (hme : (k.proc me).state ≠ .unused) (n : Int32) :
    Sat (watch .plain) (growproc me n) (fun _ k' => Consistent k') k := by
  obtain ⟨g, hready⟩ := h.ready
  have hspace := h.spaces.each me
  have hpt := h.live me hme
  unfold growproc
  apply Sat.seq_get
  dsimp only
  split
  · next hn =>
      have hpos : 0 ≤ n.toInt := by
        have := Int32.lt_iff_toInt_lt.mp hn
        simp at this
        omega
      split
      · exact Sat.ret h
      · next hfit =>
          have hle : (k.proc me).sz ≤ add64 (k.proc me).sz n := by
            rw [add64_of_nonneg hspace.size hpos]
            omega
          apply Sat.seq
          apply (uvmalloc_spec (c := .plain) (by decide) (by decide) hready (hspace.table hpt) (Or.inl rfl)
            (hspace.above hpt) (Nat.not_lt.mp hfit)).mono
          rintro res k₁ ⟨hready₁, ⟨rfl, hcalm⟩ | ⟨rfl, hcalm⟩⟩
          · rw [max_eq_right hle]
            have hgrow := h.grow hme hle (Nat.not_lt.mp hfit) hready₁ hcalm ?_
            · split
              · next h0 =>
                  refine Sat.ret (h.calm hready₁ hcalm ?_)
                  rintro q v ⟨-, -, hv⟩
                  rw [h0] at hv
                  exact absurd hv (Nat.not_lt_zero _)
              · apply Sat.seq_update
                exact Sat.ret hgrow
            · rintro q v ⟨hq, -, hv⟩
              have hqme : q = me := h.spaces.inj q me (by rw [hq]; exact hpt) hq
              rw [if_pos hqme]
              exact hv
          · rw [if_pos rfl]
            exact Sat.ret (h.calm hready₁ hcalm fun _ _ => False.elim)
  · split
    · apply Sat.seq
      apply (uvmdealloc_spec (watch_allowed id) hready (hspace.table hpt) hspace.size).mono
      rintro res k₁ ⟨hready₁, rfl, hclear⟩
      have h₁ := h.calm hready₁ (hclear.calm (X := fun _ _ => False)) fun _ _ => False.elim
      have hsame := hclear.procs me
      apply Sat.seq_update
      apply Sat.ret
      refine h₁.updProc (fun _ => rfl) (fun _ => rfl) (by rw [hsame.state]; exact hme) ?_
      refine (h₁.spaces.each me).resize ((Nat.min_le_left _ _).trans hspace.size) ?_
        (by rw [hsame.state]; exact hme)
      intro _ v hv ha
      rw [hsame.pagetable]
      by_cases hold : v.addr < pgroundup (k.proc me).sz
      · apply hclear.cleared v
        refine ⟨?_, hold⟩
        rcases Nat.le_total (k.proc me).sz (add64 (k.proc me).sz n) with hle | hle
        · rw [Nat.min_eq_left hle] at ha
          exact absurd hold (Nat.not_lt.mpr ha)
        · rw [Nat.min_eq_right hle] at ha
          exact ha
      · exact hclear.empty (hspace.above hpt v hv (Nat.not_lt.mp hold))
    · exact Sat.ret h

/-- **`sys_sbrk`**, eager or lazy. -/
theorem sysSbrk_spec (h : Consistent k) (hme : (k.proc me).state ≠ .unused) (n : Int32) (eager : Bool) :
    Sat (watch .plain) (sysSbrk me n eager) (fun _ k' => Consistent k') k := by
  unfold sysSbrk
  apply Sat.seq_get
  dsimp only
  split
  · apply Sat.seq
    apply (growproc_spec h hme n).mono
    intro res k₁ h₁
    split
    · exact Sat.ret h₁
    · exact Sat.ret h₁
  · split
    · exact Sat.ret h
    · next hle =>
        split
        · exact Sat.ret h
        · next hfit =>
            apply Sat.seq_update
            exact Sat.ret (h.enlarge hme (Nat.not_lt.mp hle) (Nat.not_lt.mp hfit))

/-! ## `kfork` -/

omit [SwapStore D] in
/-- The child gets the register state of its parent. -/
theorem Consistent.setMem (h : Consistent k) (pa : Nat) (page : Page) : Consistent (k.setMem pa page) := by
  obtain ⟨g, hready⟩ := h.ready
  exact ⟨⟨g, hready.setMem page⟩, ⟨h.spaces.null, h.spaces.each, h.spaces.owner, h.spaces.inj⟩, h.live⟩

/-- **`kfork`**, whether it succeeds or fails. -/
theorem kfork_spec (h : Consistent k) (hme : (k.proc me).state ≠ .unused) :
    Sat (watch .plain) (kfork me) (fun _ k' => Consistent k') k := by
  obtain ⟨g, hready⟩ := h.ready
  unfold kfork
  apply Sat.seq
  apply (allocproc_spec hready h.spaces).mono
  intro res k₁ hres
  cases res with
  | none => exact Sat.ret (Settles.consistent hres h)
  | some np =>
    have hk₁ : Consistent k₁ := Claimed.consistent hres h
    obtain ⟨⟨g₁, hready₁⟩, hspaces₁, hvacant, hused, hsize, hpt, huser, hothers⟩ := hres
    have hne : me ≠ np := by
      rintro rfl
      exact hme hvacant
    have hme₁ : (k₁.proc me).state ≠ .unused := by
      rw [(hothers me hne).state]
      exact hme
    have hspace := hspaces₁.each me
    have hold := hk₁.live me hme₁
    have hnew : (k₁.proc np).pagetable ≠ (k₁.proc me).pagetable :=
      fun heq => hne (hspaces₁.inj np me hpt heq).symm
    apply Sat.seq_get
    apply Sat.seq
    apply (uvmcopy_spec hready₁ rfl (hspace.table hold) hspace.size rfl ((hspaces₁.each np).table hpt) hnew
      huser hspace.size).mono
    rintro res k₂ ⟨hready₂, ⟨rfl, hcalm⟩ | ⟨rfl, hcalm⟩⟩
    · rw [if_neg (by decide)]
      have hsz : (k₂.proc me).sz = (k₁.proc me).sz := (hcalm.procs me).sz
      have hused₁ : (k₁.proc np).state ≠ .unused := by
        rw [hused]
        exact ProcState.noConfusion
      have hgrow := hk₁.grow hused₁ (by rw [hsize]; exact Nat.zero_le _) hspace.size hready₂ hcalm ?_
      · have hself : (k₂.updProc np fun c => { c with sz := (k₁.proc me).sz }).proc np =
            { k₂.proc np with sz := (k₁.proc me).sz } := update_self ..
        have hst : ((k₂.updProc np fun c => { c with sz := (k₁.proc me).sz }).proc np).state ≠ .unused := by
          rw [hself]
          show (k₂.proc np).state ≠ .unused
          rw [(hcalm.procs np).state]
          exact hused₁
        apply Sat.seq_update
        rw [hsz]
        apply Sat.seq_update
        apply Sat.seq_update
        apply Sat.seq_get
        apply Sat.ret
        have hspace₂ := hgrow.spaces.each np
        exact (hgrow.setMem _ _).updProc (fun _ => rfl) (fun _ => rfl) hst ⟨hspace₂.size, hspace₂.table,
          hspace₂.above, hspace₂.special, fun hu => ProcState.noConfusion hu⟩
      · rintro q v (⟨hq, -, hv⟩ | ⟨hq, -, hv⟩)
        · have hqme : q = me := hspaces₁.inj q me (by rw [hq]; exact hold) hq
          rw [hqme, if_neg hne]
          exact hv
        · have hqn : q = np := hspaces₁.inj q np (by rw [hq]; exact hpt) hq
          rw [if_pos hqn]
          exact hv
    · rw [if_pos (by decide)]
      have hk₂ : Consistent k₂ := hk₁.calm hready₂ hcalm ?_
      · obtain ⟨g₂, hready₂⟩ := hready₂
        apply Sat.seq
        apply (freeproc_spec (p := np) (watch_allowed id) hready₂ hk₂.spaces).mono
        intro _ k₃ hfreed
        exact Sat.ret (hfreed.consistent hk₂)
      · rintro q v ⟨hq, -, hv⟩
        have hqme : q = me := hspaces₁.inj q me (by rw [hq]; exact hold) hq
        rw [hqme]
        exact hv

end Xv6
