import Mathlib.Algebra.Group.Pi.Basic
import Mathlib.Data.Fintype.Prod
import Xv6.Lib.Counting
import Xv6.Lib.Transition
import Xv6.Fs.OpenFile

/-!
# References to open files

In the middle of a call the table of open files and the descriptor tables disagree: `filealloc` returns
an entry that counts a reference no descriptor holds yet, and `sys_dup` stores a descriptor before
`filedup` counts it. The invariant `Inv s e` names that difference: the count of an entry `f` is the
number of descriptors for it plus `e f`. Each function moves `e` by what it takes over or hands out, and
a call starts and ends with `e = 0`.

For the pipes, the invariant says that an end is open exactly when an entry of the table is that end,
and that there is one such entry. So the end is closed when its entry is released.
-/

namespace Xv6.OpenFile

open TraceM Function

/-! ## Descriptors and pipe ends -/

/-- What a descriptor contributes to the count of `f`. -/
def hit (f : FileId) (o : Option FileId) : Nat := if o = some f then 1 else 0

@[simp] theorem hit_self (f : FileId) : hit f (some f) = 1 := if_pos rfl

/-- The number of descriptors, over all processes, that point to `f`. -/
def State.refs (s : State) (f : FileId) : Nat := ∑ x, hit f (s.ofile x)

/-- `x` is an end of the pipe in the page `pi`. -/
def File.IsEnd (x : File) (pi : Nat) (w : Bool) : Prop := x.type = .pipe ∧ x.pipe = pi ∧ x.writable = w

/-- `pi->writeopen` or `pi->readopen`. -/
def openEnd (q : Pipe) (w : Bool) : Bool := if w then q.writeopen else q.readopen

def State.isOpen (s : State) (pi : Nat) (w : Bool) : Bool :=
  match s.pipes pi with
  | none => false
  | some q => openEnd q w

theorem openEnd_close (q : Pipe) (w v : Bool) :
    openEnd (q.close w) v = if v = w then false else openEnd q v := by
  cases w <;> cases v <;> rfl

theorem State.isOpen_of_none {s : State} {pi : Nat} (h : s.pipes pi = none) (w : Bool) :
    s.isOpen pi w = false := by
  unfold State.isOpen
  rw [h]

/-- All descriptors of all processes bound the references of a file. -/
theorem State.refs_le (s : State) (f : FileId) : s.refs f ≤ nproc * nofile := by
  have h : ∀ x ∈ (Finset.univ : Finset (ProcId × Fd)), hit f (s.ofile x) ≤ 1 := by
    intro x _
    unfold hit
    split <;> omega
  calc s.refs f ≤ Finset.univ.card • 1 := Finset.sum_le_card_nsmul _ _ _ h
    _ = nproc * nofile := by
      rw [nsmul_one, Nat.cast_id, Finset.card_univ, Fintype.card_prod, Fintype.card_fin, Fintype.card_fin]

theorem State.refs_pos {s : State} {f : FileId} {x : ProcId × Fd} (h : s.ofile x = some f) :
    1 ≤ s.refs f := by
  have := Counting.le_sum (hit f) s.ofile x
  rw [h, hit_self] at this
  exact this

theorem State.exists_of_refs {s : State} {f : FileId} (h : s.refs f ≠ 0) : ∃ x, s.ofile x = some f := by
  by_contra hno
  push Not at hno
  exact h (Finset.sum_eq_zero fun x _ => if_neg (hno x))

/-! ## The invariant -/

/-- A reference that `o` stands for, as a change of the difference. -/
def hits (o : Option FileId) : FileId → Int := fun f => hit f o

@[simp] theorem hits_none : hits none = 0 := rfl

/-- The count of every entry exceeds the number of its descriptors by `e`. -/
structure Inv (s : State) (e : FileId → Int) : Prop where
  count : ∀ f, (s.file f).ref = s.refs f + e f
  free : ∀ f, (s.file f).ref = 0 → (s.file f).type = .none
  ends : ∀ pi w, s.isOpen pi w = true ↔ ∃ f, (s.file f).IsEnd pi w
  single : ∀ {f g pi w}, (s.file f).IsEnd pi w → (s.file g).IsEnd pi w → f = g
  page : ∀ {pi}, s.pipes pi ≠ none → ∃ w, s.isOpen pi w = true
  idle : ∀ {p}, s.state p = .unused ∨ s.state p = .zombie → ∀ fd, s.ofile (p, fd) = none

namespace Inv

variable {s : State} {e e' : FileId → Int}

theorem init : Inv State.init 0 where
  count f := by
    have : State.init.refs f = 0 := Finset.sum_eq_zero fun _ _ => rfl
    rw [this]
    rfl
  free _ _ := rfl
  ends pi w := ⟨fun h => (nomatch h), fun ⟨_, h, _⟩ => (nomatch h)⟩
  single h := (nomatch h.1)
  page h := absurd rfl h
  idle _ _ := rfl

/-- An entry is rewritten and stays the end of the same pipe, or of none. -/
theorem setFile (h : Inv s e) {f : FileId} {x : File} (hends : ∀ pi w, x.IsEnd pi w ↔ (s.file f).IsEnd pi w)
    (hfree : x.ref = 0 → x.type = .none) (hcount : x.ref = s.refs f + e' f)
    (he : ∀ g, g ≠ f → e' g = e g) : Inv (s.setFile f x) e' := by
  have hfile : ∀ g, g ≠ f → (s.setFile f x).file g = s.file g := fun g hg => update_of_ne hg ..
  have hself : (s.setFile f x).file f = x := update_self ..
  have hend : ∀ g pi w, ((s.setFile f x).file g).IsEnd pi w ↔ (s.file g).IsEnd pi w := by
    intro g pi w
    by_cases hg : g = f
    · rw [hg, hself]
      exact hends pi w
    · rw [hfile g hg]
  refine ⟨?_, ?_, ?_, ?_, h.page, h.idle⟩
  · intro g
    by_cases hg : g = f
    · rw [hg, hself]
      exact hcount
    · rw [hfile g hg, he g hg]
      exact h.count g
  · intro g
    by_cases hg : g = f
    · rw [hg, hself]
      exact hfree
    · rw [hfile g hg]
      exact h.free g
  · intro pi w
    refine (h.ends pi w).trans ?_
    exact exists_congr fun g => (hend g pi w).symm
  · intro g₁ g₂ pi w h₁ h₂
    exact h.single ((hend g₁ pi w).mp h₁) ((hend g₂ pi w).mp h₂)

/-- Only the count of an entry changes. -/
theorem setRef (h : Inv s e) {f : FileId} {r : Int} (hr : r ≠ 0) (d : FileId → Int)
    (hd : r = (s.file f).ref + d f) (he : ∀ g, g ≠ f → d g = 0) :
    Inv (s.setFile f { s.file f with ref := r }) (e + d) := by
  refine h.setFile (fun _ _ => Iff.rfl) (fun h0 => absurd h0 hr) ?_ ?_
  · show r = s.refs f + (e f + d f)
    rw [hd, h.count f]
    omega
  · intro g hg
    show e g + d g = e g
    rw [he g hg, add_zero]

theorem hits_other {f g : FileId} (hg : g ≠ f) : hits (some f) g = 0 := by
  unfold hits hit
  rw [if_neg fun heq => hg (Option.some.inj heq).symm]
  rfl

theorem hits_self (f : FileId) : hits (some f) f = 1 := by
  unfold hits
  rw [hit_self]
  rfl

/-- A descriptor is set, cleared or replaced. -/
theorem setOfile (h : Inv s e) {x : ProcId × Fd} {o : Option FileId}
    (hidle : o ≠ none → s.state x.1 ≠ .unused ∧ s.state x.1 ≠ .zombie) :
    Inv (s.setOfile x o) (e + hits (s.ofile x) - hits o) := by
  refine ⟨?_, h.free, h.ends, h.single, h.page, ?_⟩
  · intro f
    have hsum := Counting.sum_update (hit f) s.ofile x o
    have hcount := h.count f
    change (s.file f).ref = ((s.setOfile x o).refs f : Int) + (e f + hit f (s.ofile x) - hit f o)
    change (s.setOfile x o).refs f + hit f (s.ofile x) = s.refs f + hit f o at hsum
    omega
  · intro p hp fd
    show update s.ofile x o (p, fd) = none
    by_cases hx : (p, fd) = x
    · subst hx
      rw [update_self]
      by_contra ho
      rcases hp with hp | hp
      · exact (hidle ho).1 hp
      · exact (hidle ho).2 hp
    · rw [update_of_ne hx]
      exact h.idle hp fd

theorem setState (h : Inv s e) {p : ProcId} {st : ProcState}
    (hidle : st = .unused ∨ st = .zombie → ∀ fd, s.ofile (p, fd) = none) : Inv (s.setState p st) e := by
  refine ⟨h.count, h.free, h.ends, h.single, h.page, ?_⟩
  intro q hq
  change update s.state p st q = _ ∨ update s.state p st q = _ at hq
  by_cases hqp : q = p
  · subst hqp
    rw [update_self] at hq
    exact hidle hq
  · rw [update_of_ne hqp] at hq
    exact h.idle hq

end Inv

/-! ## `filealloc`, `filedup` and `fdalloc` -/

section

variable {s : State} {e : FileId → Int}

/-- What `filealloc` does to the entry it takes. -/
def State.take (s : State) (f : FileId) : State := s.setFile f { s.file f with ref := 1 }

/-- `filealloc` takes an entry without references, if there is one. -/
theorem filealloc_cases (s : State) :
    filealloc s = .ok (none, s, []) ∨
      ∃ f, (s.file f).ref = 0 ∧ filealloc s = .ok (some f, s.take f, []) := by
  unfold filealloc
  rw [get_bind_apply]
  cases hf : firstIdx fun f => (s.file f).ref == 0 with
  | none => exact Or.inl rfl
  | some f =>
    have h0 : ((s.file f).ref == 0) = true := firstIdx_holds hf
    exact Or.inr ⟨f, by simpa using h0, rfl⟩

/-- The caller of `filealloc` holds the one reference. -/
theorem Inv.take (h : Inv s e) {f : FileId} (hf : (s.file f).ref = 0) :
    Inv (s.take f) (e + hits (some f)) := by
  refine h.setRef (by omega) _ ?_ ?_
  · rw [hf, Inv.hits_self]
    omega
  · intro g hg
    exact Inv.hits_other hg

theorem filedup_run {f : FileId} (hf : 1 ≤ (s.file f).ref) :
    filedup f s = .ok ((), s.setFile f { s.file f with ref := (s.file f).ref + 1 }, []) := by
  unfold filedup
  rw [get_bind_apply, if_neg (by omega)]
  rfl

/-- The caller of `filedup` holds one reference more. -/
theorem Inv.dup (h : Inv s e) {f : FileId} (hf : 1 ≤ (s.file f).ref) :
    Inv (s.setFile f { s.file f with ref := (s.file f).ref + 1 }) (e + hits (some f)) := by
  refine h.setRef (by omega) _ ?_ ?_
  · rw [Inv.hits_self]
  · intro g hg
    exact Inv.hits_other hg

/-- `fdalloc` takes a free descriptor, if there is one. -/
theorem fdalloc_cases (p : ProcId) (f : FileId) (s : State) :
    fdalloc p f s = .ok (none, s, []) ∨
      ∃ fd, s.ofile (p, fd) = none ∧
        fdalloc p f s = .ok (some fd, s.setOfile (p, fd) (some f), []) := by
  unfold fdalloc
  rw [get_bind_apply]
  cases hfd : firstIdx fun fd => (s.ofile (p, fd)).isNone with
  | none => exact Or.inl rfl
  | some fd =>
    have h0 : (s.ofile (p, fd)).isNone = true := firstIdx_holds hfd
    exact Or.inr ⟨fd, by simpa using h0, rfl⟩

/-- A reference moves from the caller into a free descriptor. -/
theorem Inv.store (h : Inv s e) {p : ProcId} {fd : Fd} {f : FileId} (hfd : s.ofile (p, fd) = none)
    (hp : s.state p ≠ .unused ∧ s.state p ≠ .zombie) :
    Inv (s.setOfile (p, fd) (some f)) (e - hits (some f)) := by
  have := h.setOfile (x := (p, fd)) (o := some f) fun _ => hp
  rw [hfd, hits_none, add_zero] at this
  exact this

/-- A descriptor is cleared, and the caller has its reference. -/
theorem Inv.clear (h : Inv s e) {p : ProcId} {fd : Fd} {f : FileId} (hfd : s.ofile (p, fd) = some f) :
    Inv (s.setOfile (p, fd) none) (e + hits (some f)) := by
  have := h.setOfile (x := (p, fd)) (o := none) fun h0 => absurd rfl h0
  rw [hfd, hits_none, sub_zero] at this
  exact this

end

/-! ## `fileclose` -/

/-- From `s` to `s'` no pipe was made, and `pipeclose` was called for the ends that got closed, once
for each. -/
structure Shut (s s' : State) (l : List Event) : Prop where
  balance : ∀ pi w, l.count (.pipeclose pi w) + (s'.isOpen pi w).toNat = (s.isOpen pi w).toNat
  quiet : ∀ pi, .pipealloc pi ∉ l

namespace Shut

variable {s s' s₁ s₂ : State} {l l₁ l₂ : List Event}

/-- Nothing was reported, and the pipes are as they were. -/
theorem same (h : s'.pipes = s.pipes) : Shut s s' [] where
  balance pi w := by
    unfold State.isOpen
    rw [h]
    simp
  quiet _ := List.not_mem_nil

theorem iput (h : s'.pipes = s.pipes) (ip : Nat) : Shut s s' [.iput ip] where
  balance pi w := by
    unfold State.isOpen
    rw [h]
    simp
  quiet pi := by simp

theorem trans (h₁ : Shut s s₁ l₁) (h₂ : Shut s₁ s₂ l₂) : Shut s s₂ (l₁ ++ l₂) where
  balance pi w := by
    have := h₁.balance pi w
    have := h₂.balance pi w
    rw [List.count_append]
    omega
  quiet pi h := by
    rcases List.mem_append.mp h with h | h
    · exact h₁.quiet pi h
    · exact h₂.quiet pi h

end Shut

section

variable {s : State} {e : FileId → Int} {f : FileId}

/-- The entry as `fileclose` releases it. -/
def File.released (x : File) : File := { x with ref := 0, type := .none }

theorem File.released_isEnd (x : File) (pi : Nat) (w : Bool) : ¬ x.released.IsEnd pi w :=
  fun h => nomatch h.1

/-- What `pipeclose` makes of the page of a pipe. -/
def State.shut (s : State) (pi : Nat) (q : Pipe) (w : Bool) : State :=
  s.setPipe pi
    (if (q.close w).readopen = false ∧ (q.close w).writeopen = false then none else some (q.close w))

theorem pipeclose_run {pi : Nat} {q : Pipe} (w : Bool) (hq : s.pipes pi = some q) :
    pipeclose pi w s = .ok ((), s.shut pi q w, [.pipeclose pi w]) := by
  unfold pipeclose
  apply emit_bind_run
  rw [get_bind_apply, hq]
  rfl

/-- `pipeclose` shuts one end of one pipe. -/
theorem State.shut_isOpen {pi : Nat} {q : Pipe} (w : Bool) (hq : s.pipes pi = some q) (pj : Nat) (v : Bool) :
    (s.shut pi q w).isOpen pj v = if pj = pi ∧ v = w then false else s.isOpen pj v := by
  by_cases hj : pj = pi
  · subst hj
    have hold : s.isOpen pj v = openEnd q v := by
      unfold State.isOpen
      rw [hq]
    have hnew : (s.shut pj q w).isOpen pj v = openEnd (q.close w) v := by
      unfold State.isOpen State.shut State.setPipe
      dsimp only
      rw [update_self]
      split
      · next hnone =>
          split at hnone
          · next hclosed =>
              unfold openEnd
              rw [hclosed.1, hclosed.2]
              simp
          · cases hnone
      · next hsome =>
          split at hsome
          · cases hsome
          · rw [Option.some.inj hsome]
    rw [hnew, openEnd_close, hold]
    simp
  · have : (s.shut pi q w).pipes pj = s.pipes pj := update_of_ne hj ..
    unfold State.isOpen
    rw [this, if_neg fun h => hj h.1]

/-- The pipe that is left has an open end. -/
theorem State.shut_page {pi : Nat} {q : Pipe} {w : Bool} (h : (s.shut pi q w).pipes pi ≠ none) :
    ∃ v, (s.shut pi q w).isOpen pi v = true := by
  unfold State.isOpen
  change update s.pipes pi _ pi ≠ none at h
  show ∃ v, (match update s.pipes pi _ pi with
    | none => false
    | some q => openEnd q v) = true
  rw [update_self] at h ⊢
  split at h
  · exact absurd rfl h
  · next hopen =>
      rw [if_neg hopen]
      by_cases hr : (q.close w).readopen = true
      · exact ⟨false, hr⟩
      · refine ⟨true, ?_⟩
        have hw : (q.close w).writeopen ≠ false := fun hw => hopen ⟨by simpa using hr, hw⟩
        show (q.close w).writeopen = true
        simpa using hw

/-- The last reference to an end of a pipe goes: the entry is released and the end closed. -/
theorem Inv.closeEnd (h : Inv s e) {q : Pipe} {pi : Nat} {w : Bool} (hend : (s.file f).IsEnd pi w)
    (hq : s.pipes pi = some q) (href : (s.file f).ref = 1) :
    Inv ((s.setFile f (s.file f).released).shut pi q w) (e - hits (some f)) := by
  have hq' : (s.setFile f (s.file f).released).pipes pi = some q := hq
  have hfile : ∀ g, g ≠ f → (s.setFile f (s.file f).released).file g = s.file g :=
    fun g hg => update_of_ne hg ..
  have hself : (s.setFile f (s.file f).released).file f = (s.file f).released := update_self ..
  have hends : ∀ g pj v, ((s.setFile f (s.file f).released).file g).IsEnd pj v ↔
      g ≠ f ∧ (s.file g).IsEnd pj v := by
    intro g pj v
    by_cases hg : g = f
    · rw [hg, hself]
      exact ⟨fun h0 => absurd h0 (File.released_isEnd _ _ _), fun h0 => absurd rfl h0.1⟩
    · rw [hfile g hg]
      exact ⟨fun h0 => ⟨hg, h0⟩, fun h0 => h0.2⟩
  refine ⟨?_, ?_, ?_, ?_, ?_, h.idle⟩
  · intro g
    have hcount := h.count g
    show ((s.setFile f (s.file f).released).file g).ref = s.refs g + (e g - hits (some f) g)
    by_cases hg : g = f
    · rw [hg] at hcount ⊢
      rw [hself, Inv.hits_self]
      show (0 : Int) = _
      omega
    · rw [hfile g hg, Inv.hits_other hg, sub_zero]
      exact hcount
  · intro g
    show ((s.setFile f (s.file f).released).file g).ref = 0 →
      ((s.setFile f (s.file f).released).file g).type = .none
    by_cases hg : g = f
    · rw [hg, hself]
      exact fun _ => rfl
    · rw [hfile g hg]
      exact h.free g
  · intro pj v
    rw [State.shut_isOpen w hq']
    show (if _ then false else s.isOpen pj v) = true ↔
      ∃ g, ((s.setFile f (s.file f).released).file g).IsEnd pj v
    by_cases hw : pj = pi ∧ v = w
    · obtain ⟨rfl, rfl⟩ := hw
      rw [if_pos ⟨rfl, rfl⟩]
      refine ⟨fun h0 => (nomatch h0), ?_⟩
      rintro ⟨g, hg⟩
      obtain ⟨hgf, hg⟩ := (hends g pj v).mp hg
      exact absurd (h.single hg hend) hgf
    · rw [if_neg hw, h.ends pj v]
      constructor
      · rintro ⟨g, hg⟩
        refine ⟨g, (hends g pj v).mpr ⟨?_, hg⟩⟩
        rintro rfl
        exact hw ⟨hg.2.1.symm.trans hend.2.1, hg.2.2.symm.trans hend.2.2⟩
      · rintro ⟨g, hg⟩
        exact ⟨g, ((hends g pj v).mp hg).2⟩
  · intro g₁ g₂ pj v h₁ h₂
    exact h.single ((hends g₁ pj v).mp h₁).2 ((hends g₂ pj v).mp h₂).2
  · intro pj hpj
    by_cases hj : pj = pi
    · subst hj
      exact State.shut_page hpj
    · have hold : ((s.setFile f (s.file f).released).shut pi q w).pipes pj = s.pipes pj :=
        update_of_ne hj ..
      rw [hold] at hpj
      obtain ⟨v, hv⟩ := h.page hpj
      refine ⟨v, ?_⟩
      rw [State.shut_isOpen w hq', if_neg fun h0 => hj h0.1]
      exact hv

/-- The last reference to anything else goes. -/
theorem Inv.release (h : Inv s e) (htype : (s.file f).type ≠ .pipe) (href : (s.file f).ref = 1) :
    Inv (s.setFile f (s.file f).released) (e - hits (some f)) := by
  refine h.setFile ?_ (fun _ => rfl) ?_ ?_
  · intro pi w
    exact ⟨fun h0 => absurd h0 (File.released_isEnd _ _ _), fun h0 => absurd h0.1 htype⟩
  · have := h.count f
    show (0 : Int) = s.refs f + (e f - hits (some f) f)
    rw [Inv.hits_self]
    omega
  · intro g hg
    show e g - hits (some f) g = e g
    rw [Inv.hits_other hg, sub_zero]

/-- An end is shut when its file is closed. -/
theorem Shut.closeEnd {q : Pipe} {pi : Nat} {w : Bool} {x : File} (hq : s.pipes pi = some q)
    (hw : s.isOpen pi w = true) : Shut s ((s.setFile f x).shut pi q w) [.pipeclose pi w] where
  balance pj v := by
    have hq' : (s.setFile f x).pipes pi = some q := hq
    rw [State.shut_isOpen w hq']
    by_cases h : pj = pi ∧ v = w
    · obtain ⟨rfl, rfl⟩ := h
      rw [if_pos ⟨rfl, rfl⟩, hw]
      simp
    · rw [if_neg h]
      have hne : Event.pipeclose pi w ≠ Event.pipeclose pj v := by
        intro heq
        injection heq with h₁ h₂
        exact h ⟨h₁.symm, h₂.symm⟩
      rw [List.count_singleton, if_neg (by simpa using hne), Nat.zero_add]
      rfl
  quiet _ := by simp

/-- **Closing** gives up one reference and returns. It calls `pipeclose` when it was the last one to an
end of a pipe. -/
theorem fileclose_spec (h : Inv s e) (href : 1 ≤ (s.file f).ref) :
    Returns (fileclose f)
      (fun _ s' l => Inv s' (e - hits (some f)) ∧ Shut s s' l ∧ s'.ofile = s.ofile ∧ s'.state = s.state)
      s := by
  unfold fileclose
  apply Returns.seq_get
  rw [if_neg (by omega)]
  by_cases hmore : 0 < (s.file f).ref - 1
  · dsimp only
    rw [if_pos hmore]
    apply Returns.update
    refine ⟨?_, Shut.same rfl, rfl, rfl⟩
    have := h.setRef (f := f) (r := (s.file f).ref - 1) (by omega) (-hits (some f)) (by
      show _ = _ + -hits (some f) f
      rw [Inv.hits_self]
      omega) fun g hg => by
        show -hits (some f) g = 0
        rw [Inv.hits_other hg, neg_zero]
    rw [← sub_eq_add_neg] at this
    exact this
  · have hone : (s.file f).ref = 1 := by omega
    dsimp only
    rw [if_neg hmore]
    apply Returns.seq_update
    have hrel : ∀ g : State, g.setFile f { g.file f with ref := 0, type := .none } =
        g.setFile f (g.file f).released := fun _ => rfl
    rw [hrel]
    cases htype : (s.file f).type with
    | none =>
      apply Returns.ret
      exact ⟨h.release (by simp [htype]) hone, Shut.same rfl, rfl, rfl⟩
    | inode =>
      exact Returns.of_ok rfl ⟨h.release (by simp [htype]) hone, Shut.iput (by rfl) _, rfl, rfl⟩
    | device =>
      exact Returns.of_ok rfl ⟨h.release (by simp [htype]) hone, Shut.iput (by rfl) _, rfl, rfl⟩
    | pipe =>
      have hend : (s.file f).IsEnd (s.file f).pipe (s.file f).writable := ⟨htype, rfl, rfl⟩
      have hopen := (h.ends _ _).mpr ⟨f, hend⟩
      cases hq : s.pipes (s.file f).pipe with
      | none =>
        rw [State.isOpen_of_none hq] at hopen
        cases hopen
      | some q =>
        have hq' : (s.setFile f (s.file f).released).pipes (s.file f).pipe = some q := hq
        refine Returns.of_ok (pipeclose_run _ hq') ?_
        exact ⟨h.closeEnd hend hq hone, Shut.closeEnd hq hopen, rfl, rfl⟩

end

end Xv6.OpenFile
