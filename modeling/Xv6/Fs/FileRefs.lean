import Xv6.Fs.OpenFileSpec

/-!
# Reference counts over whole runs

`open`, `dup`, `close`, `pipe`, `fork` and `exit`, called in any order by any processes: each of them
returns, with exact counts, and `pipeclose` is called for an end of a pipe exactly when its last
descriptor goes.
-/

namespace Xv6.OpenFile

open TraceM Function State List

/-! ## The calls without a pipe of their own -/

section

variable {s : State} {e : FileId → Int} {p : ProcId}

/-- `argfd` finds what the descriptor table has. -/
theorem argfd_some {n : Int} {fd : Fd} {f : FileId} (h : argfd s p n = some (fd, f)) :
    s.ofile (p, fd) = some f := by
  unfold argfd at h
  split at h
  · obtain ⟨g, hg, heq⟩ := Option.map_eq_some_iff.mp h
    obtain ⟨rfl, rfl⟩ := Prod.mk.inj heq
    exact hg
  · cases h

/-- A reference that the caller has is counted. -/
theorem Inv.ref_pos (h : Inv s e) {f : FileId} (he : 1 ≤ s.refs f + e f) : 1 ≤ (s.file f).ref := by
  rw [h.count f]
  exact he

theorem running_idle {st : ProcState} (h : st = .running) : st ≠ .unused ∧ st ≠ .zombie := by
  subst h
  exact ⟨ProcState.noConfusion, ProcState.noConfusion⟩

/-- `sys_dup` keeps the counts. -/
theorem sysDup_spec (h : Inv s 0) (hp : s.state p = .running) (n : Int) :
    Returns (sysDup p n) (fun _ s' l => Inv s' 0 ∧ Shut s s' l) s := by
  unfold sysDup
  apply Returns.seq_get
  cases harg : argfd s p n with
  | none => exact Returns.ret ⟨h, Shut.same rfl⟩
  | some x =>
    obtain ⟨fd₀, f⟩ := x
    rcases fdalloc_cases p f s with hrun | ⟨fd, hfd, hrun⟩
    · apply Returns.seq_run hrun
      exact Returns.ret ⟨h, Shut.same rfl⟩
    · apply Returns.seq_run hrun
      have href : 1 ≤ (s.file f).ref := by
        apply h.ref_pos
        have := refs_pos (argfd_some harg)
        show 1 ≤ (s.refs f : Int) + 0
        omega
      apply Returns.seq_run (filedup_run (s := s.setOfile (p, fd) (some f)) href)
      apply Returns.ret
      refine ⟨?_, Shut.same rfl⟩
      have := (h.store (f := f) hfd (running_idle hp)).dup href
      rw [sub_add_cancel] at this
      exact this

/-- `sys_close` keeps the counts. -/
theorem sysClose_spec (h : Inv s 0) (n : Int) :
    Returns (sysClose p n) (fun _ s' l => Inv s' 0 ∧ Shut s s' l) s := by
  unfold sysClose
  apply Returns.seq_get
  cases harg : argfd s p n with
  | none => exact Returns.ret ⟨h, Shut.same rfl⟩
  | some x =>
    obtain ⟨fd, f⟩ := x
    apply Returns.seq_update
    have hfd := argfd_some harg
    have hclear := h.clear hfd
    have href : 1 ≤ ((s.setOfile (p, fd) none).file f).ref := by
      apply hclear.ref_pos
      show 1 ≤ ((s.setOfile (p, fd) none).refs f : Int) + (0 + hits (some f) f)
      rw [Inv.hits_self]
      omega
    refine Returns.seq ((fileclose_spec hclear href).mono ?_)
    rintro _ s' l ⟨hinv, hshut, -, -⟩
    apply Returns.ret
    rw [add_sub_cancel_right] at hinv
    refine ⟨hinv, ?_⟩
    simpa using (Shut.same (s := s) (by rfl)).trans hshut

theorem File.opened_ref (x : File) (t : Target) (omode : BitVec 32) : (x.opened t omode).ref = x.ref := by
  unfold File.opened
  split <;> rfl

theorem File.opened_type (x : File) (t : Target) (omode : BitVec 32) :
    (x.opened t omode).type ≠ .pipe := by
  unfold File.opened
  split <;> exact FdType.noConfusion

/-- `sys_open` keeps the counts, also when it runs out of descriptors. -/
theorem sysOpen_spec (h : Inv s 0) (hp : s.state p = .running) (omode : BitVec 32)
    (target : Option Target) : Returns (sysOpen p omode target) (fun _ s' l => Inv s' 0 ∧ Shut s s' l) s := by
  unfold sysOpen
  cases target with
  | none => exact Returns.ret ⟨h, Shut.same rfl⟩
  | some t =>
    dsimp only
    split
    · exact Returns.of_ok rfl ⟨h, Shut.iput rfl _⟩
    split
    · exact Returns.of_ok rfl ⟨h, Shut.iput rfl _⟩
    rcases filealloc_cases s with hrun | ⟨f, hf, hrun⟩
    · apply Returns.seq_run hrun
      exact Returns.of_ok rfl ⟨h, Shut.iput rfl _⟩
    apply Returns.seq_run hrun
    have htake := h.take hf
    rw [zero_add] at htake
    have hself : (s.take f).file f = { s.file f with ref := 1 } := update_self ..
    rcases fdalloc_cases p f (s.take f) with hfdrun | ⟨fd, hfd, hfdrun⟩
    · apply Returns.seq_run hfdrun
      have href : 1 ≤ ((s.take f).file f).ref := by rw [hself]
      refine Returns.seq ((fileclose_spec htake href).mono ?_)
      rintro _ s' l ⟨hinv, hshut, -, -⟩
      rw [sub_self] at hinv
      refine Returns.of_ok rfl ⟨hinv, ?_⟩
      have hstart : Shut s (s.take f) [] := Shut.same rfl
      simpa using (hstart.trans hshut).trans (Shut.iput rfl t.ip)
    · apply Returns.seq_run hfdrun
      apply Returns.seq_update
      apply Returns.ret
      refine ⟨?_, Shut.same rfl⟩
      have hstore := htake.store (f := f) hfd (running_idle hp)
      rw [sub_self] at hstore
      refine hstore.setFile ?_ ?_ ?_ fun _ _ => rfl
      · intro pi w
        refine ⟨fun h0 => absurd h0.1 (File.opened_type _ _ _), fun h0 => ?_⟩
        have htype : (s.file f).type = .pipe := by
          have := h0.1
          change ((s.take f).file f).type = .pipe at this
          rw [hself] at this
          exact this
        rw [h.free f hf] at htype
        cases htype
      · intro h0
        rw [File.opened_ref] at h0
        change ((s.take f).file f).ref = 0 at h0
        rw [hself] at h0
        cases h0
      · rw [File.opened_ref]
        exact hstore.count f

/-- The child shares one file with its parent. -/
theorem forkFd_spec {np : ProcId} {fd : Fd} (h : Inv s 0) (hnp : s.state np = .used)
    (hfd : s.ofile (np, fd) = none) :
    Returns (forkFd p np fd)
      (fun _ s' l => l = [] ∧ Inv s' 0 ∧ s'.state = s.state ∧ s'.pipes = s.pipes ∧
        ∀ fd', fd' ≠ fd → s'.ofile (np, fd') = s.ofile (np, fd')) s := by
  unfold forkFd
  apply Returns.seq_get
  cases hf : s.ofile (p, fd) with
  | none => exact Returns.ret ⟨rfl, h, rfl, rfl, fun _ _ => rfl⟩
  | some f =>
    have href : 1 ≤ (s.file f).ref := by
      apply h.ref_pos
      have := refs_pos hf
      show 1 ≤ (s.refs f : Int) + 0
      omega
    apply Returns.seq_run (filedup_run href)
    apply Returns.update
    refine ⟨rfl, ?_, rfl, rfl, ?_⟩
    · have hlive : s.state np ≠ .unused ∧ s.state np ≠ .zombie := by
        rw [hnp]
        exact ⟨ProcState.noConfusion, ProcState.noConfusion⟩
      have := (h.dup href).store (f := f) hfd hlive
      rw [add_sub_cancel_right] at this
      exact this
    · intro fd' hne
      exact update_of_ne (fun heq => hne (Prod.mk.inj heq).2) ..

/-- `kfork` keeps the counts, also when it fails. -/
theorem kfork_spec (h : Inv s 0) {slot : Option ProcId} (hslot : ∀ np, slot = some np → s.state np = .unused)
    (copied : Bool) : Returns (kfork p slot copied) (fun _ s' l => Inv s' 0 ∧ Shut s s' l) s := by
  unfold kfork
  cases slot with
  | none => exact Returns.ret ⟨h, Shut.same rfl⟩
  | some np =>
    have hempty := h.idle (Or.inl (hslot np rfl))
    apply Returns.seq_update
    have hused : Inv (s.setState np .used) 0 := by
      apply h.setState
      rintro (h0 | h0) <;> cases h0
    split
    · apply Returns.seq_update
      exact Returns.ret ⟨hused.setState fun _ => hempty, Shut.same rfl⟩
    -- The descriptors that are left to copy are still free in the child.
    have hloop := Returns.forM (f := forkFd p np)
      (I := fun (left : List Fd) (s' : State) (tr : List Event) => tr = [] ∧ Inv s' 0 ∧ s'.state np = .used ∧
        s'.pipes = s.pipes ∧ left.Nodup ∧ ∀ fd ∈ left, s'.ofile (np, fd) = none)
      (fun fd left s₁ tr ⟨htr, hinv, hst, hpipes, hnodup, hleft⟩ => by
        refine (forkFd_spec hinv hst (hleft fd mem_cons_self)).mono ?_
        rintro _ s₂ tr₂ ⟨rfl, hinv₂, hst₂, hpipes₂, hkeep⟩
        obtain ⟨hnot, hnodup⟩ := nodup_cons.mp hnodup
        refine ⟨by simpa using htr, hinv₂, by rw [hst₂, hst], hpipes₂.trans hpipes, hnodup, ?_⟩
        intro fd' hfd'
        rw [hkeep fd' (by rintro rfl; exact hnot hfd')]
        exact hleft fd' (mem_cons_of_mem _ hfd'))
      (l := List.finRange nofile) (s := s.setState np .used) (t := [])
      ⟨rfl, hused, update_self .., rfl, nodup_finRange _, fun fd _ => hempty fd⟩
    refine Returns.seq (hloop.mono ?_)
    rintro _ s' l ⟨hl, hinv, -, hpipes, -, -⟩
    apply Returns.seq_update
    apply Returns.ret
    refine ⟨?_, ?_⟩
    · apply hinv.setState
      rintro (h0 | h0) <;> cases h0
    · rw [nil_append] at hl
      rw [hl]
      exact Shut.same hpipes

/-- One descriptor of a process that exits is closed. -/
theorem exitFd_spec {fd : Fd} (h : Inv s 0) :
    Returns (exitFd p fd)
      (fun _ s' l => Inv s' 0 ∧ Shut s s' l ∧ s'.state = s.state ∧ s'.ofile (p, fd) = none ∧
        ∀ fd', s.ofile (p, fd') = none → s'.ofile (p, fd') = none) s := by
  unfold exitFd
  apply Returns.seq_get
  cases hf : s.ofile (p, fd) with
  | none => exact Returns.ret ⟨h, Shut.same rfl, rfl, hf, fun _ => id⟩
  | some f =>
    have href : 1 ≤ (s.file f).ref := by
      apply h.ref_pos
      have := refs_pos hf
      show 1 ≤ (s.refs f : Int) + 0
      omega
    refine Returns.seq ((fileclose_spec h href).mono ?_)
    rintro _ s₁ l ⟨hinv, hshut, hofile, hstate⟩
    apply Returns.update
    have hclear := hinv.clear (hofile ▸ hf : s₁.ofile (p, fd) = some f)
    rw [sub_add_cancel] at hclear
    refine ⟨hclear, ?_, hstate, update_self .., ?_⟩
    · exact hshut.trans (Shut.same rfl)
    · intro fd' hfd'
      show update s₁.ofile (p, fd) none (p, fd') = none
      by_cases heq : (p, fd') = (p, fd)
      · rw [heq, update_self]
      · rw [update_of_ne heq, hofile]
        exact hfd'

/-- `kexit` closes all descriptors. -/
theorem kexit_spec (h : Inv s 0) (hp : p ≠ 0) :
    Returns (kexit p) (fun _ s' l => Inv s' 0 ∧ Shut s s' l) s := by
  unfold kexit
  rw [if_neg hp]
  have hloop := Returns.forM (f := exitFd p)
    (I := fun (left : List Fd) (s' : State) (tr : List Event) => Inv s' 0 ∧ Shut s s' tr ∧
      ∀ fd, fd ∉ left → s'.ofile (p, fd) = none)
    (fun fd left s₁ tr ⟨hinv, hshut, hdone⟩ => by
      refine (exitFd_spec hinv).mono ?_
      rintro _ s₂ tr₂ ⟨hinv₂, hshut₂, -, hnone, hkeep⟩
      refine ⟨hinv₂, hshut.trans hshut₂, ?_⟩
      intro fd' hfd'
      by_cases heq : fd' = fd
      · rw [heq]
        exact hnone
      · apply hkeep
        apply hdone
        exact fun hmem => (mem_cons.mp hmem).elim heq hfd')
    (l := List.finRange nofile) (s := s) (t := [])
    ⟨h, Shut.same rfl, fun fd hfd => absurd (mem_finRange fd) hfd⟩
  refine Returns.seq (hloop.mono ?_)
  rintro _ s' l ⟨hinv, hshut, hdone⟩
  apply Returns.update
  refine ⟨hinv.setState fun _ fd => hdone fd not_mem_nil, ?_⟩
  exact hshut.trans (Shut.same rfl)

end

/-! ## `pipe` -/

section

variable {s : State} {p : ProcId} {f g : FileId}

/-- Giving up two references that no descriptor holds. -/
theorem closePair_spec {α : Type} (a : α) (h : Inv s (hits (some f) + hits (some g))) :
    Returns (do fileclose f; fileclose g; return a : M α)
      (fun r s' l => r = a ∧ s'.state = s.state ∧ Inv s' 0 ∧ Shut s s' l) s := by
  have hnonneg : ∀ x y : FileId, 0 ≤ hits (some x) y := fun x y => Int.natCast_nonneg _
  have hf : 1 ≤ (s.file f).ref := by
    apply h.ref_pos
    have := hnonneg g f
    show 1 ≤ (s.refs f : Int) + (hits (some f) f + hits (some g) f)
    rw [Inv.hits_self]
    omega
  refine Returns.seq ((fileclose_spec h hf).mono ?_)
  rintro _ s₁ l₁ ⟨hinv₁, hshut₁, -, hstate₁⟩
  rw [add_sub_cancel_left] at hinv₁
  have hg : 1 ≤ (s₁.file g).ref := by
    apply hinv₁.ref_pos
    rw [Inv.hits_self]
    omega
  refine Returns.seq ((fileclose_spec hinv₁ hg).mono ?_)
  rintro _ s₂ l₂ ⟨hinv₂, hshut₂, -, hstate₂⟩
  rw [sub_self] at hinv₂
  apply Returns.ret
  rw [append_nil]
  exact ⟨rfl, hstate₂.trans hstate₁, hinv₂, hshut₁.trans hshut₂⟩

/-- The state after the stores of `pipealloc`. -/
def State.piped (s : State) (pi : Nat) (f g : FileId) : State :=
  let s := s.setPipe pi (some (.alloc fun _ => 5))
  let s := s.setFile f ((s.file f).piped pi false)
  s.setFile g ((s.file g).piped pi true)

theorem State.piped_isOpen (pi : Nat) (pj : Nat) (w : Bool) :
    (s.piped pi f g).isOpen pj w = if pj = pi then true else s.isOpen pj w := by
  unfold State.isOpen
  by_cases h : pj = pi
  · subst h
    have hpipe : (s.piped pj f g).pipes pj = some (.alloc fun _ => 5) := update_self ..
    rw [hpipe, if_pos rfl]
    cases w <;> rfl
  · have hpipe : (s.piped pi f g).pipes pj = s.pipes pj := update_of_ne h _ _
    rw [hpipe, if_neg h]

theorem File.piped_isEnd (x : File) (pi pj : Nat) (v w : Bool) :
    (x.piped pi v).IsEnd pj w ↔ pj = pi ∧ w = v := by
  constructor
  · rintro ⟨-, hpi, hv⟩
    exact ⟨hpi.symm, hv.symm⟩
  · rintro ⟨rfl, rfl⟩
    exact ⟨rfl, rfl, rfl⟩

/-- A new pipe, both ends of which are entries that were no end of a pipe. -/
theorem Inv.pipe {e : FileId → Int} (h : Inv s e) {pi : Nat} (hpi : s.pipes pi = none) (hne : g ≠ f)
    (hf : (s.file f).type ≠ .pipe) (hg : (s.file g).type ≠ .pipe) (hfref : (s.file f).ref ≠ 0)
    (hgref : (s.file g).ref ≠ 0) : Inv (s.piped pi f g) e := by
  have hfile : ∀ x, (s.piped pi f g).file x =
      if x = g then (s.file g).piped pi true else if x = f then (s.file f).piped pi false
        else s.file x := by
    intro x
    have hg' : update s.file f ((s.file f).piped pi false) g = s.file g :=
      update_of_ne hne ..
    show update (update s.file f ((s.file f).piped pi false)) g
      ((update s.file f ((s.file f).piped pi false) g).piped pi true) x = _
    rw [hg']
    by_cases hxg : x = g
    · rw [hxg, update_self, if_pos rfl]
    · rw [update_of_ne hxg, if_neg hxg]
      by_cases hxf : x = f
      · rw [hxf, update_self, if_pos rfl]
      · rw [update_of_ne hxf, if_neg hxf]
  have hnew : ∀ x w, ¬ (s.file x).IsEnd pi w := by
    intro x w hx
    have := (h.ends pi w).mpr ⟨x, hx⟩
    rw [isOpen_of_none hpi] at this
    cases this
  have hends : ∀ x pj w, ((s.piped pi f g).file x).IsEnd pj w ↔
      (pj = pi ∧ x = if w then g else f) ∨ (s.file x).IsEnd pj w := by
    intro x pj w
    rw [hfile x]
    split
    · next hx =>
        have hold : ¬ (s.file x).IsEnd pj w := fun h0 => hg (hx ▸ h0.1)
        rw [File.piped_isEnd, or_iff_left hold, hx]
        cases w <;> simp [hne]
    · next hxg =>
        split
        · next hx =>
            have hold : ¬ (s.file x).IsEnd pj w := fun h0 => hf (hx ▸ h0.1)
            rw [File.piped_isEnd, or_iff_left hold, hx]
            cases w <;> simp [hne.symm]
        · next hxf =>
            refine (or_iff_right ?_).symm
            rintro ⟨-, hx⟩
            cases w with
            | true => exact hxg hx
            | false => exact hxf hx
  have href : ∀ x, ((s.piped pi f g).file x).ref = (s.file x).ref := by
    intro x
    rw [hfile x]
    split
    · next hx =>
        rw [hx]
        rfl
    · split
      · next hx =>
          rw [hx]
          rfl
      · rfl
  refine ⟨?_, ?_, ?_, ?_, ?_, h.idle⟩
  · intro x
    rw [href x]
    exact h.count x
  · intro x hx
    rw [href x] at hx
    rw [hfile x, if_neg, if_neg]
    · exact h.free x hx
    · rintro rfl
      exact hfref hx
    · rintro rfl
      exact hgref hx
  · intro pj w
    rw [piped_isOpen]
    by_cases hj : pj = pi
    · subst hj
      rw [if_pos rfl]
      exact ⟨fun _ => ⟨_, (hends _ _ _).mpr (Or.inl ⟨rfl, rfl⟩)⟩, fun _ => rfl⟩
    · rw [if_neg hj, h.ends pj w]
      refine exists_congr fun x => ?_
      rw [hends]
      exact ⟨Or.inr, fun h0 => h0.resolve_left fun h1 => hj h1.1⟩
  · intro x y pj w hx hy
    rcases (hends x pj w).mp hx with ⟨hj, hx⟩ | hx
    · rcases (hends y pj w).mp hy with ⟨-, hy⟩ | hy
      · exact hx.trans hy.symm
      · exact absurd (hj ▸ hy) (hnew y w)
    · rcases (hends y pj w).mp hy with ⟨hj, -⟩ | hy
      · exact absurd (hj ▸ hx) (hnew x w)
      · exact h.single hx hy
  · intro pj hpj
    by_cases hj : pj = pi
    · refine ⟨true, ?_⟩
      rw [piped_isOpen, if_pos hj]
    · have hold : (s.piped pi f g).pipes pj = s.pipes pj := update_of_ne hj ..
      rw [hold] at hpj
      obtain ⟨w, hw⟩ := h.page hpj
      refine ⟨w, ?_⟩
      rw [piped_isOpen, if_neg hj]
      exact hw

/-- `pipealloc` makes a pipe and hands out a reference to each end, or leaves everything as it was. -/
theorem pipealloc_spec (h : Inv s 0) {page : Option Nat} (hpage : ∀ pi, page = some pi → s.pipes pi = none) :
    Returns (pipealloc page)
      (fun r s' l => s'.state = s.state ∧ match r with
        | none => Inv s' 0 ∧ Shut s s' l
        | some (f, g) => Inv s' (hits (some f) + hits (some g)) ∧ ∃ pi, s.pipes pi = none ∧
            l = [.pipealloc pi] ∧
            ∀ pj w, s'.isOpen pj w = if pj = pi then true else s.isOpen pj w) s := by
  unfold pipealloc
  rcases filealloc_cases s with hrun | ⟨f, hf, hrun⟩
  · apply Returns.seq_run hrun
    exact Returns.ret ⟨rfl, h, Shut.same rfl⟩
  apply Returns.seq_run hrun
  have hinv₁ := h.take hf
  rw [zero_add] at hinv₁
  have hself₁ : (s.take f).file f = { s.file f with ref := 1 } := update_self ..
  rcases filealloc_cases (s.take f) with hrun₂ | ⟨g, hg, hrun₂⟩
  · apply Returns.seq_run hrun₂
    refine Returns.seq ((fileclose_spec hinv₁ (by rw [hself₁])).mono ?_)
    rintro _ s' l ⟨hinv, hshut, -, hstate⟩
    rw [sub_self] at hinv
    apply Returns.ret
    rw [append_nil]
    exact ⟨hstate, hinv, (Shut.same (s := s) (by rfl)).trans hshut⟩
  apply Returns.seq_run hrun₂
  have hinv₂ := hinv₁.take hg
  have hne : g ≠ f := by
    rintro rfl
    rw [hself₁] at hg
    cases hg
  have hfile₂ : ((s.take f).take g).file f = { s.file f with ref := 1 } :=
    (update_of_ne hne.symm ..).trans hself₁
  have hself₂ : ((s.take f).take g).file g = { (s.take f).file g with ref := 1 } :=
    update_self ..
  cases page with
  | none =>
    refine (closePair_spec none hinv₂).mono ?_
    rintro _ s' l ⟨rfl, hstate, hinv, hshut⟩
    have hstart : Shut s ((s.take f).take g) [] := Shut.same rfl
    exact ⟨hstate, hinv, hstart.trans hshut⟩
  | some pi =>
    refine Returns.of_ok (show _ = Except.ok
      (some (f, g), ((s.take f).take g).piped pi f g, [Event.pipealloc pi]) from rfl) ?_
    refine ⟨rfl, ?_, pi, hpage pi rfl, rfl, fun pj w => piped_isOpen pi pj w⟩
    refine hinv₂.pipe (hpage pi rfl) hne ?_ ?_ ?_ ?_
    · rw [hfile₂]
      show (s.file f).type ≠ .pipe
      rw [h.free f hf]
      exact FdType.noConfusion
    · rw [hself₂]
      show ((s.take f).file g).type ≠ .pipe
      rw [hinv₁.free g hg]
      exact FdType.noConfusion
    · rw [hfile₂]
      exact one_ne_zero
    · rw [hself₂]
      exact one_ne_zero

/-! ## What a call closes -/

/-- `pipeclose` was called once for each end that was open before, or that the call made, and is closed
now, and for no other. -/
def Closes (s s' : State) (l : List Event) : Prop :=
  ∀ pi w, l.count (.pipeclose pi w) =
    if (s.isOpen pi w = true ∨ .pipealloc pi ∈ l) ∧ s'.isOpen pi w = false then 1 else 0

theorem Shut.closes {s' : State} {l : List Event} (h : Shut s s' l) : Closes s s' l := by
  intro pi w
  have hbal := h.balance pi w
  simp only [h.quiet pi, or_false]
  cases hs : s.isOpen pi w <;> cases hs' : s'.isOpen pi w <;> rw [hs, hs'] at hbal <;> simp_all

/-- A call that made a pipe and then closed some ends. -/
theorem Shut.closes_made {s₁ s' : State} {l : List Event} {pi : Nat} (hpi : s.pipes pi = none)
    (hmade : ∀ pj w, s₁.isOpen pj w = if pj = pi then true else s.isOpen pj w) (h : Shut s₁ s' l) :
    Closes s s' (.pipealloc pi :: l) := by
  intro pj w
  have hbal := h.closes pj w
  rw [hmade] at hbal
  rw [count_cons_of_ne Event.noConfusion, hbal]
  by_cases hj : pj = pi
  · subst hj
    rw [if_pos rfl]
    simp
  · rw [if_neg hj]
    have hmem : Event.pipealloc pj ∉ Event.pipealloc pi :: l := by
      intro hmem
      rcases mem_cons.mp hmem with heq | hmem
      · injection heq with heq
        exact hj heq
      · exact h.quiet pj hmem
    simp only [hmem, h.quiet pj]

/-- `sys_pipe` keeps the counts, also when it fails half-way. -/
theorem sysPipe_spec (h : Inv s 0) (hp : s.state p = .running) {page : Option Nat}
    (hpage : ∀ pi, page = some pi → s.pipes pi = none) (copied : Bool) :
    Returns (sysPipe p page copied) (fun _ s' l => Inv s' 0 ∧ Closes s s' l) s := by
  unfold sysPipe
  refine Returns.seq ((pipealloc_spec h hpage).mono ?_)
  rintro r s₁ l₁ ⟨hstate, hr⟩
  cases r with
  | none =>
    apply Returns.ret
    rw [append_nil]
    exact ⟨hr.1, hr.2.closes⟩
  | some x =>
    obtain ⟨rf, wf⟩ := x
    obtain ⟨hinv, pi, hpi, rfl, hmade⟩ := hr
    have hlive : s₁.state p ≠ .unused ∧ s₁.state p ≠ .zombie := by
      rw [hstate]
      exact running_idle hp
    -- Whatever the exit, it is enough to know what was closed since the pipe was made.
    suffices hrest : Returns _ (fun _ s' l => Inv s' 0 ∧ Shut s₁ s' l) s₁ from
      hrest.mono fun _ s' l hl => ⟨hl.1, hl.2.closes_made hpi hmade⟩
    dsimp only
    rcases fdalloc_cases p rf s₁ with hrun | ⟨fd₀, hfd₀, hrun⟩
    · apply Returns.seq_run hrun
      exact (closePair_spec _ hinv).mono fun _ _ _ hl => hl.2.2
    apply Returns.seq_run hrun
    have hinv₂ := hinv.store (f := rf) hfd₀ hlive
    rcases fdalloc_cases p wf (s₁.setOfile (p, fd₀) (some rf)) with hrun₂ | ⟨fd₁, hfd₁, hrun₂⟩
    · apply Returns.seq_run hrun₂
      apply Returns.seq_update
      have hfd : (s₁.setOfile (p, fd₀) (some rf)).ofile (p, fd₀) = some rf := update_self ..
      have hback := hinv₂.clear hfd
      rw [sub_add_cancel] at hback
      refine (closePair_spec _ hback).mono fun _ s' l hl => ⟨hl.2.2.1, ?_⟩
      exact (Shut.same (s := s₁) (by rfl)).trans hl.2.2.2
    apply Returns.seq_run hrun₂
    have hinv₃ := hinv₂.store (f := wf) hfd₁ hlive
    rw [add_sub_cancel_left, sub_self] at hinv₃
    cases copied with
    | true => exact Returns.ret ⟨hinv₃, Shut.same rfl⟩
    | false =>
      have hne : (p, fd₀) ≠ (p, fd₁) := by
        intro heq
        change update s₁.ofile (p, fd₀) (some rf) (p, fd₁) = none at hfd₁
        rw [← heq, update_self] at hfd₁
        cases hfd₁
      obtain ⟨s₃, hs₃⟩ : ∃ s₃, s₃ = (s₁.setOfile (p, fd₀) (some rf)).setOfile (p, fd₁) (some wf) :=
        ⟨_, rfl⟩
      rw [← hs₃] at hinv₃ ⊢
      have h₀ : s₃.ofile (p, fd₀) = some rf := by
        rw [hs₃]
        exact (update_of_ne hne ..).trans (update_self ..)
      have h₁ : (s₃.setOfile (p, fd₀) none).ofile (p, fd₁) = some wf := by
        rw [hs₃]
        exact (update_of_ne hne.symm ..).trans (update_self ..)
      have hback := (hinv₃.clear h₀).clear h₁
      rw [zero_add] at hback
      have hsame : Shut s₁ s₃ [] := by
        rw [hs₃]
        exact Shut.same rfl
      apply Returns.seq_update
      apply Returns.seq_update
      refine (closePair_spec _ hback).mono fun _ s' l hl => ⟨hl.2.2.1, ?_⟩
      exact hsame.trans ((Shut.same (s := s₃) (by rfl)).trans hl.2.2.2)

end

/-! ## Runs -/

/-- A call, with what the environment decides. -/
inductive Call where
  | sysOpen (p : ProcId) (omode : BitVec 32) (target : Option Target)
  | sysDup (p : ProcId) (n : Int)
  | sysClose (p : ProcId) (n : Int)
  | sysPipe (p : ProcId) (page : Option Nat) (copied : Bool)
  | kfork (p : ProcId) (slot : Option ProcId) (copied : Bool)
  | kexit (p : ProcId)
  /-- `kwait` finds the zombie `p`. -/
  | reap (p : ProcId)
  /-- The scheduler, `sleep` or `wakeup` changes the state of `p`. -/
  | schedule (p : ProcId) (st : ProcState)

namespace Call

def run : Call → M Unit
  | sysOpen p omode target => do let _ ← OpenFile.sysOpen p omode target
  | sysDup p n => do let _ ← OpenFile.sysDup p n
  | sysClose p n => do let _ ← OpenFile.sysClose p n
  | sysPipe p page copied => do let _ ← OpenFile.sysPipe p page copied
  | kfork p slot copied => do let _ ← OpenFile.kfork p slot copied
  | kexit p => OpenFile.kexit p
  | reap p => OpenFile.reap p
  | schedule p st => modify fun s => s.setState p st

/-- A process that the scheduler deals with. -/
def Live (st : ProcState) : Prop := st = .sleeping ∨ st = .runnable ∨ st = .running

/-- Calls are made by running processes; `kalloc` returns no page that is in use as a pipe, and
`allocproc` finds an unused slot. -/
def Allowed (s : State) : Call → Prop
  | sysOpen p _ _ => s.state p = .running
  | sysDup p _ => s.state p = .running
  | sysClose p _ => s.state p = .running
  | sysPipe p page _ => s.state p = .running ∧ ∀ pi, page = some pi → s.pipes pi = none
  | kfork p slot _ => s.state p = .running ∧ ∀ np, slot = some np → s.state np = .unused
  | kexit p => s.state p = .running
  | reap p => s.state p = .zombie
  | schedule p st => Live (s.state p) ∧ Live st

end Call

/-- A call that returns; its events are those it reports. -/
def Step (s : State) (a : Call × List Event) (s' : State) : Prop :=
  a.1.Allowed s ∧ a.1.run s = .ok ((), s', a.2)

/-- Dropping the result of a call. -/
theorem returns_drop {α : Type} {x : M α} {Q : State → List Event → Prop} {s : State}
    (h : Returns x (fun _ => Q) s) : Returns (do let _ ← x : M Unit) (fun _ => Q) s := by
  refine Returns.seq (h.mono fun _ s' l hQ => ?_)
  apply Returns.ret
  rw [append_nil]
  exact hQ

/-- **Every call returns** and restores the invariant; only the first process cannot exit. -/
theorem call_returns {s : State} (h : Inv s 0) {c : Call} (hc : c.Allowed s) :
    Returns c.run (fun _ s' l => Inv s' 0 ∧ Closes s s' l) s ∨
      c = .kexit 0 ∧ c.run s = .error .initExiting := by
  have hcloses : ∀ s' l, Inv s' 0 ∧ Shut s s' l → Inv s' 0 ∧ Closes s s' l :=
    fun s' l hl => ⟨hl.1, hl.2.closes⟩
  cases c with
  | sysOpen p omode target =>
    exact Or.inl (returns_drop ((sysOpen_spec h hc omode target).mono fun _ => hcloses))
  | sysDup p n => exact Or.inl (returns_drop ((sysDup_spec h hc n).mono fun _ => hcloses))
  | sysClose p n => exact Or.inl (returns_drop ((sysClose_spec h n).mono fun _ => hcloses))
  | sysPipe p page copied => exact Or.inl (returns_drop (sysPipe_spec h hc.1 hc.2 copied))
  | kfork p slot copied =>
    exact Or.inl (returns_drop ((kfork_spec h hc.2 copied).mono fun _ => hcloses))
  | kexit p =>
    by_cases hp : p = 0
    · subst hp
      exact Or.inr ⟨rfl, rfl⟩
    · exact Or.inl ((kexit_spec h hp).mono fun _ => hcloses)
  | reap p =>
    refine Or.inl (Returns.update (hcloses _ _ ⟨?_, Shut.same rfl⟩))
    exact h.setState fun _ => h.idle (Or.inr hc)
  | schedule p st =>
    refine Or.inl (Returns.update (hcloses _ _ ⟨?_, Shut.same rfl⟩))
    apply h.setState
    rintro (rfl | rfl) <;> simp [Call.Allowed, Call.Live] at hc

/-- Every call keeps the counts. -/
theorem Inv.step {s s' : State} {a : Call × List Event} (h : Inv s 0) (hstep : Step s a s') :
    Inv s' 0 := by
  rcases call_returns h hstep.1 with ⟨_, s₁, l, hrun, hinv, -⟩ | ⟨-, herr⟩
  · rw [hstep.2] at hrun
    obtain ⟨-, rfl, -⟩ := Except.ok.inj hrun
    exact hinv
  · rw [hstep.2] at herr
    cases herr

/-- Some descriptor leads to the end of the pipe in `pi`. -/
def State.Reached (s : State) (pi : Nat) (w : Bool) : Prop :=
  ∃ x f, s.ofile x = some f ∧ (s.file f).IsEnd pi w

/-- An end of a pipe is open if and only if a descriptor leads to it. -/
theorem Inv.isOpen_iff {s : State} (h : Inv s 0) (pi : Nat) (w : Bool) :
    s.isOpen pi w = true ↔ s.Reached pi w := by
  rw [h.ends]
  constructor
  · rintro ⟨f, hf⟩
    have hrefs : s.refs f ≠ 0 := by
      intro h0
      have href : (s.file f).ref = 0 := by
        rw [h.count f, h0]
        rfl
      have htype := hf.1
      rw [h.free f href] at htype
      cases htype
    obtain ⟨x, hx⟩ := exists_of_refs hrefs
    exact ⟨x, f, hx, hf⟩
  · rintro ⟨x, f, -, hf⟩
    exact ⟨f, hf⟩

/-- The counts are the numbers of descriptors, a free entry has no type, and the pages that hold a pipe
are those that some descriptor leads to. -/
structure Exact (s : State) : Prop where
  count : ∀ f, (s.file f).ref = s.refs f
  /-- The counts stay far away from the limits of an `int`. -/
  bound : ∀ f, (s.file f).ref ≤ nproc * nofile
  free : ∀ f, (s.file f).ref = 0 → (s.file f).type = .none
  ends : ∀ pi w, s.isOpen pi w = true ↔ s.Reached pi w
  page : ∀ pi, s.pipes pi ≠ none ↔ ∃ w, s.Reached pi w

/-- Between calls the counts are exact. -/
theorem Inv.exact {s : State} (h : Inv s 0) : Exact s where
  count f := (h.count f).trans (add_zero _)
  bound f := by
    have := s.refs_le f
    rw [h.count f]
    show (s.refs f : Int) + 0 ≤ _
    omega
  free := h.free
  ends := h.isOpen_iff
  page pi := by
    constructor
    · intro hpi
      obtain ⟨w, hw⟩ := h.page hpi
      exact ⟨w, (h.isOpen_iff pi w).mp hw⟩
    · rintro ⟨w, hw⟩ hpi
      have := (h.isOpen_iff pi w).mpr hw
      rw [isOpen_of_none hpi] at this
      cases this

/-- **Reference counts are exact.** After any sequence of calls the count of each entry is the number of
its descriptors, free entries have no type, and no entry and no page of a pipe is lost. The next call
returns, whatever it is and whatever fails in it, unless the first process exits: there is no panic
in `filedup`, in `fileclose` or on a freed pipe. It calls `pipeclose` for an end of a pipe once if a
descriptor led to that end before, or the call made the pipe, and none does after it, and not
otherwise. -/
theorem file_refs_exact {as : List (Call × List Event)} {s : State}
    (hrun : Transition.Run Step .init as s) :
    Exact s ∧ ∀ c : Call, c.Allowed s →
      (∃ s' l, c.run s = .ok ((), s', l) ∧ Exact s' ∧ ∀ pi w,
        (l.count (.pipeclose pi w) = 1 ↔
          (s.Reached pi w ∨ .pipealloc pi ∈ l) ∧ ¬ s'.Reached pi w) ∧
        l.count (.pipeclose pi w) ≤ 1) ∨
      c = .kexit 0 ∧ c.run s = .error .initExiting := by
  have h : Inv s 0 := hrun.invariant (I := fun s => Inv s 0) Inv.init fun _ _ _ h hstep => h.step hstep
  refine ⟨h.exact, fun c hc => ?_⟩
  rcases call_returns h hc with ⟨_, s', l, hok, hinv, hcloses⟩ | hinit
  · refine Or.inl ⟨s', l, hok, hinv.exact, fun pi w => ?_⟩
    rw [← h.isOpen_iff, ← hinv.isOpen_iff, Bool.not_eq_true, hcloses pi w]
    split <;> simp_all
  · exact Or.inr hinit

/-- The first process runs and asks for a pipe, and the descriptors cannot be copied out. -/
theorem file_refs_exact_pipe :
    Exact (State.init.setState 0 .running) ∧
      ∃ s' l, (Call.sysPipe 0 (some 7) false).run (State.init.setState 0 .running) = .ok ((), s', l) ∧
        Exact s' := by
  have hsched : (Call.schedule 0 .running).Allowed State.init := ⟨Or.inr (Or.inl rfl), Or.inr (Or.inr rfl)⟩
  obtain ⟨hexact, hcall⟩ := file_refs_exact
    (Transition.Run.snoc .nil (⟨hsched, rfl⟩ : Step .init (.schedule 0 .running, []) _))
  refine ⟨hexact, ?_⟩
  rcases hcall (.sysPipe 0 (some 7) false) ⟨rfl, fun _ _ => rfl⟩ with ⟨s', l, hok, hexact', -⟩ | ⟨h, -⟩
  · exact ⟨s', l, hok, hexact'⟩
  · cases h

end Xv6.OpenFile
