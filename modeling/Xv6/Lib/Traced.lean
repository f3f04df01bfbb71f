import Mathlib.Logic.Function.Basic

/-!
# State-passing code that can panic and leaves a trace

`TraceM ε σ ω α` is the type of a computation that reads and writes a state `σ`, may stop for good
with a panic of type `ε`, and reports events of type `ω` on its way. The trace of a sequence is the
trace of its first half followed by that of its second half, so whatever was reported stays reported.

## Judgements

`Sat W x Q s` says what a run of `x` from `s` can end in. A `Watch` sorts the events: an event is
`fine`, or it is `broken` and nothing more is claimed about the rest of the run. Panics have to be
`allowed`. So one judgement about a block of code answers three questions at once: which panics it can
raise, which events it can report, and what holds when it returns and nothing was broken.
-/

/-- A computation over the state `σ` that may panic with `ε` and reports events `ω`. -/
def TraceM (ε σ ω α : Type) : Type := σ → Except ε (α × σ × List ω)

namespace TraceM

variable {ε σ ω α β : Type}

protected def bind (x : TraceM ε σ ω α) (f : α → TraceM ε σ ω β) : TraceM ε σ ω β := fun s =>
  match x s with
  | .error e => .error e
  | .ok (a, s₁, l₁) =>
    match f a s₁ with
    | .error e => .error e
    | .ok (b, s₂, l₂) => .ok (b, s₂, l₁ ++ l₂)

instance : Monad (TraceM ε σ ω) where
  pure a := fun s => .ok (a, s, [])
  bind := TraceM.bind

instance : MonadStateOf σ (TraceM ε σ ω) where
  get := fun s => .ok (s, s, [])
  set s := fun _ => .ok ((), s, [])
  modifyGet f := fun s => .ok ((f s).1, (f s).2, [])

instance : MonadExceptOf ε (TraceM ε σ ω) where
  throw e := fun _ => .error e
  tryCatch x h := fun s =>
    match x s with
    | .error e => h e s
    | .ok r => .ok r

/-- Report an event. -/
def emit (w : ω) : TraceM ε σ ω Unit := fun s => .ok ((), s, [w])

/-! ## Running a block forwards -/

@[simp] theorem pure_apply (a : α) (s : σ) : (pure a : TraceM ε σ ω α) s = .ok (a, s, []) := rfl

@[simp] theorem throw_apply (e : ε) (s : σ) : (throw e : TraceM ε σ ω α) s = .error e := rfl

@[simp] theorem modify_apply (g : σ → σ) (s : σ) :
    (modify g : TraceM ε σ ω PUnit) s = .ok (PUnit.unit, g s, []) := rfl

theorem bind_apply (x : TraceM ε σ ω α) (f : α → TraceM ε σ ω β) (s : σ) :
    (x >>= f) s = TraceM.bind x f s := rfl

/-- A first half that returns without an event. -/
theorem bind_of_ok {x : TraceM ε σ ω α} {f : α → TraceM ε σ ω β} {s s₁ : σ} {a : α}
    (h : x s = .ok (a, s₁, [])) : (x >>= f) s = f a s₁ := by
  rw [bind_apply]
  unfold TraceM.bind
  rw [h]
  dsimp only
  cases f a s₁ with
  | error e => rfl
  | ok r => rfl

/-- Two halves that return: the events of the first half come first. -/
theorem bind_run {x : TraceM ε σ ω α} {f : α → TraceM ε σ ω β} {s s₁ s₂ : σ} {a : α} {b : β}
    {l₁ l₂ : List ω} (h : x s = .ok (a, s₁, l₁)) (hf : f a s₁ = .ok (b, s₂, l₂)) :
    (x >>= f) s = .ok (b, s₂, l₁ ++ l₂) := by
  rw [bind_apply]
  unfold TraceM.bind
  rw [h]
  dsimp only
  rw [hf]

/-- A sequence whose first half panics panics with it. -/
theorem bind_of_error {x : TraceM ε σ ω α} {f : α → TraceM ε σ ω β} {s : σ} {e : ε}
    (h : x s = .error e) : (x >>= f) s = .error e := by
  rw [bind_apply]
  unfold TraceM.bind
  rw [h]

theorem pure_bind (a : α) (f : α → TraceM ε σ ω β) : (pure a : TraceM ε σ ω α) >>= f = f a :=
  funext fun _ => bind_of_ok rfl

theorem bind_assoc {γ : Type} (x : TraceM ε σ ω α) (f : α → TraceM ε σ ω β) (g : β → TraceM ε σ ω γ) :
    (x >>= f) >>= g = x >>= fun a => f a >>= g := by
  funext s
  simp only [bind_apply, TraceM.bind]
  cases x s with
  | error e => rfl
  | ok r =>
    obtain ⟨a, s₁, l₁⟩ := r
    dsimp only
    cases f a s₁ with
    | error e => rfl
    | ok r =>
      obtain ⟨b, s₂, l₂⟩ := r
      dsimp only
      cases g b s₂ with
      | error e => rfl
      | ok r => simp only [List.append_assoc]

theorem bind_run_error {x : TraceM ε σ ω α} {f : α → TraceM ε σ ω β} {s s₁ : σ} {a : α} {l : List ω}
    {e : ε} (h : x s = .ok (a, s₁, l)) (hf : f a s₁ = .error e) : (x >>= f) s = .error e := by
  rw [bind_apply]
  unfold TraceM.bind
  rw [h]
  dsimp only
  rw [hf]

@[simp] theorem pure_bind_apply (a : α) (f : α → TraceM ε σ ω β) (s : σ) :
    ((pure a : TraceM ε σ ω α) >>= f) s = f a s := bind_of_ok rfl

@[simp] theorem get_bind_apply (f : σ → TraceM ε σ ω β) (s : σ) : (get >>= f) s = f s s :=
  bind_of_ok rfl

@[simp] theorem modify_bind_apply (g : σ → σ) (f : PUnit → TraceM ε σ ω β) (s : σ) :
    (modify g >>= f) s = f PUnit.unit (g s) := bind_of_ok rfl

theorem emit_bind_run {w : ω} {f : Unit → TraceM ε σ ω β} {s s' : σ} {b : β} {l : List ω}
    (hf : f () s = .ok (b, s', l)) : (emit w >>= f) s = .ok (b, s', w :: l) :=
  bind_run (rfl : emit w s = .ok ((), s, [w])) hf

@[simp] theorem throw_bind_apply (e : ε) (f : α → TraceM ε σ ω β) (s : σ) :
    ((throw e : TraceM ε σ ω α) >>= f) s = .error e := bind_of_error rfl

/-! ## Judgements -/

/-- How the events and the panics of a run are judged. -/
structure Watch (ε ω : Type) where
  fine : ω → Prop
  broken : ω → Prop
  allowed : ε → Prop
  /-- Past a broken event nothing is known, so every panic has to be allowed then. -/
  allowed_of_broken : ∀ {w}, broken w → ∀ e, allowed e

/-- Every panic is allowed and every event is fine. -/
def Watch.lenient : Watch ε ω := ⟨fun _ => True, fun _ => False, fun _ => True, fun h _ => h.elim⟩

/-- Every panic is allowed and every event is fine or broken. -/
structure Watch.Lax (W : Watch ε ω) : Prop where
  allowed : ∀ e, W.allowed e
  sorted : ∀ w, W.fine w ∨ W.broken w

theorem Watch.lenient_lax : (Watch.lenient : Watch ε ω).Lax := ⟨fun _ => trivial, fun _ => Or.inl trivial⟩

/-- Only runs that return without an event matter. -/
def Watch.eventless : Watch ε ω := ⟨fun _ => False, fun _ => True, fun _ => True, fun _ _ => trivial⟩

/-- There are no events, and every panic is allowed. -/
def Watch.silent : Watch ε ω := ⟨fun _ => False, fun _ => False, fun _ => True, fun h _ => h.elim⟩

/-- A run of `x` from `s` panics only where allowed; when it returns, it either reported a broken
event, or reported fine events only and ends in `Q`. -/
def Sat (W : Watch ε ω) (x : TraceM ε σ ω α) (Q : α → σ → Prop) (s : σ) : Prop :=
  match x s with
  | .error e => W.allowed e
  | .ok (a, s', l) => (∃ w ∈ l, W.broken w) ∨ ((∀ w ∈ l, W.fine w) ∧ Q a s')

namespace Sat

variable {W : Watch ε ω} {x : TraceM ε σ ω α} {f : α → TraceM ε σ ω β} {s : σ}

theorem of_ok {Q : α → σ → Prop} {a : α} {s' : σ} (h : x s = .ok (a, s', [])) (hQ : Q a s') :
    Sat W x Q s := by
  unfold Sat
  rw [h]
  exact Or.inr ⟨by simp, hQ⟩

theorem of_error {Q : α → σ → Prop} {e : ε} (h : x s = .error e) (he : W.allowed e) :
    Sat W x Q s := by
  unfold Sat
  rw [h]
  exact he

/-- A judgement about a run that returned. -/
theorem holds {Q : α → σ → Prop} {a : α} {s' : σ} {l : List ω} (h : Sat .lenient x Q s)
    (hx : x s = .ok (a, s', l)) : Q a s' := by
  unfold Sat at h
  rw [hx] at h
  rcases h with ⟨_, _, hf⟩ | ⟨_, hQ⟩
  · exact hf.elim
  · exact hQ

/-- Two judgements about the same run. -/
theorem and {Q Q' : α → σ → Prop} (h : Sat W x Q s) (h' : Sat .lenient x Q' s) :
    Sat W x (fun a s' => Q a s' ∧ Q' a s') s := by
  unfold Sat at *
  cases hx : x s with
  | error e =>
    rw [hx] at h
    exact h
  | ok r =>
    obtain ⟨a, s', l⟩ := r
    rw [hx] at h h'
    rcases h with h | ⟨hl, h⟩
    · exact Or.inl h
    · exact Or.inr ⟨hl, h, (h'.resolve_left fun ⟨_, _, hf⟩ => hf).2⟩

theorem ret {Q : α → σ → Prop} {a : α} (h : Q a s) :
    Sat W (pure a : TraceM ε σ ω α) Q s := of_ok rfl h

theorem panic {Q : α → σ → Prop} {e : ε} (h : W.allowed e) :
    Sat W (throw e : TraceM ε σ ω α) Q s := of_error rfl h

theorem update {Q : PUnit → σ → Prop} {g : σ → σ} (h : Q PUnit.unit (g s)) :
    Sat W (modify g : TraceM ε σ ω PUnit) Q s := of_ok rfl h

theorem mono {Q Q' : α → σ → Prop} (h : Sat W x Q s) (hQ : ∀ a s', Q a s' → Q' a s') :
    Sat W x Q' s := by
  unfold Sat at *
  cases hx : x s with
  | error e =>
    rw [hx] at h
    exact h
  | ok r =>
    obtain ⟨a, s', l⟩ := r
    rw [hx] at h
    rcases h with h | ⟨hl, h⟩
    · exact Or.inl h
    · exact Or.inr ⟨hl, hQ a s' h⟩

/-- The same judgement under a watch that asks for less. -/
theorem rewatch {W' : Watch ε ω} {Q : α → σ → Prop} (h : Sat W x Q s) (hfine : ∀ w, W.fine w → W'.fine w)
    (hbroken : ∀ w, W.broken w → W'.broken w) (hallowed : ∀ e, W.allowed e → W'.allowed e) :
    Sat W' x Q s := by
  unfold Sat at *
  cases hx : x s with
  | error e =>
    rw [hx] at h
    exact hallowed e h
  | ok r =>
    obtain ⟨a, s', l⟩ := r
    rw [hx] at h
    rcases h with ⟨w, hmem, hw⟩ | ⟨hl, h⟩
    · exact Or.inl ⟨w, hmem, hbroken w hw⟩
    · exact Or.inr ⟨fun w hw => hfine w (hl w hw), h⟩

theorem eventless {Q : α → σ → Prop} (h : Sat W x Q s) : Sat .eventless x Q s := by
  unfold Sat at *
  cases hx : x s with
  | error e => trivial
  | ok r =>
    obtain ⟨a, s', l⟩ := r
    rw [hx] at h
    cases l with
    | nil =>
      rcases h with ⟨_, hmem, _⟩ | ⟨_, hQ⟩
      · cases hmem
      · exact Or.inr ⟨by simp, hQ⟩
    | cons w l => exact Or.inl ⟨w, List.mem_cons_self, trivial⟩

theorem holds_eventless {Q : α → σ → Prop} {a : α} {s' : σ} (h : Sat .eventless x Q s)
    (hx : x s = .ok (a, s', [])) : Q a s' := by
  unfold Sat at h
  rw [hx] at h
  rcases h with ⟨_, hmem, _⟩ | ⟨_, hQ⟩
  · cases hmem
  · exact hQ

/-- A silent computation emits nothing. -/
theorem no_events {Q : α → σ → Prop} {a : α} {s' : σ} {l : List ω} (h : Sat .silent x Q s)
    (hx : x s = .ok (a, s', l)) : l = [] := by
  unfold Sat at h
  rw [hx] at h
  rcases h with ⟨_, _, hf⟩ | ⟨hl, _⟩
  · exact hf.elim
  · exact List.eq_nil_iff_forall_not_mem.mpr hl

/-- Where there are no events, what is known under any watch holds. -/
theorem silence {Q Q' : α → σ → Prop} (h : Sat W x Q s) (h' : Sat .silent x Q' s) :
    Sat .silent x (fun a s' => Q a s' ∧ Q' a s') s := by
  unfold Sat
  cases hx : x s with
  | error e => trivial
  | ok r =>
    obtain ⟨a, s', l⟩ := r
    obtain rfl := h'.no_events hx
    unfold Sat at h h'
    rw [hx] at h h'
    rcases h with ⟨_, hmem, _⟩ | ⟨_, hQ⟩
    · cases hmem
    · exact Or.inr ⟨by simp, hQ, (h'.resolve_left fun ⟨_, hmem, _⟩ => nomatch hmem).2⟩

/-- Two judgements under one watch. -/
theorem both {Q Q' : α → σ → Prop} (h : Sat W x Q s) (h' : Sat W x Q' s) :
    Sat W x (fun a s' => Q a s' ∧ Q' a s') s := by
  unfold Sat at *
  cases hx : x s with
  | error e =>
    rw [hx] at h
    exact h
  | ok r =>
    obtain ⟨a, s', l⟩ := r
    rw [hx] at h h'
    rcases h with h | ⟨hl, h⟩
    · exact Or.inl h
    · rcases h' with h' | ⟨-, h'⟩
      · exact Or.inl h'
      · exact Or.inr ⟨hl, h, h'⟩

/-- **Sequencing.** The second half is judged from the states the first half can end in. -/
theorem seq {Q : β → σ → Prop} (h : Sat W x (fun a s' => Sat W (f a) Q s') s) :
    Sat W (x >>= f) Q s := by
  unfold Sat at h ⊢
  rw [bind_apply]
  unfold TraceM.bind
  cases hx : x s with
  | error e =>
    rw [hx] at h
    exact h
  | ok r =>
    obtain ⟨a, s₁, l₁⟩ := r
    rw [hx] at h
    dsimp only at h ⊢
    cases hf : f a s₁ with
    | error e =>
      dsimp only
      rcases h with ⟨w, -, hw⟩ | ⟨-, h⟩
      · exact W.allowed_of_broken hw e
      · rw [hf] at h
        exact h
    | ok r =>
      obtain ⟨b, s₂, l₂⟩ := r
      dsimp only
      rcases h with ⟨w, hmem, hw⟩ | ⟨hl₁, h⟩
      · exact Or.inl ⟨w, List.mem_append_left _ hmem, hw⟩
      · rw [hf] at h
        rcases h with ⟨w, hmem, hw⟩ | ⟨hl₂, h⟩
        · exact Or.inl ⟨w, List.mem_append_right _ hmem, hw⟩
        · refine Or.inr ⟨?_, h⟩
          intro w hw
          rcases List.mem_append.mp hw with hw | hw
          · exact hl₁ w hw
          · exact hl₂ w hw

theorem seq_get {g : σ → TraceM ε σ ω β} {Q : β → σ → Prop} (h : Sat W (g s) Q s) :
    Sat W (get >>= g) Q s := seq (of_ok rfl h)

theorem seq_update {u : σ → σ} {g : PUnit → TraceM ε σ ω β} {Q : β → σ → Prop}
    (h : Sat W (g PUnit.unit) Q (u s)) : Sat W (modify u >>= g) Q s := seq (of_ok rfl h)

theorem seq_emit_fine {g : Unit → TraceM ε σ ω β} {Q : β → σ → Prop} {w : ω} (hw : W.fine w)
    (h : Sat W (g ()) Q s) : Sat W (emit w >>= g) Q s := by
  apply seq
  exact Or.inr ⟨by simpa using hw, h⟩

/-- After a broken event nothing is left to show. -/
theorem seq_emit_broken {g : Unit → TraceM ε σ ω β} {Q : β → σ → Prop} {w : ω} (hw : W.broken w) :
    Sat W (emit w >>= g) Q s := by
  apply seq
  exact Or.inl ⟨w, by simp, hw⟩

/-- Running the first half of a sequence when it is known what it does. -/
theorem seq_run {Q : β → σ → Prop} {a : α} {s' : σ} (h : x s = .ok (a, s', []))
    (hf : Sat W (f a) Q s') : Sat W (x >>= f) Q s := seq (of_ok h hf)

/-- **A loop over a list**, with an invariant about the elements that are left. -/
theorem forM {f : α → TraceM ε σ ω PUnit} {I : List α → σ → Prop}
    (hstep : ∀ a l s, I (a :: l) s → Sat W (f a) (fun _ s' => I l s') s) :
    ∀ {l : List α} {s : σ}, I l s → Sat W (l.forM f) (fun _ s' => I [] s') s := by
  intro l
  induction l with
  | nil =>
    intro s h
    exact ret h
  | cons a l ih =>
    intro s h
    exact seq ((hstep a l s h).mono fun _ _ h' => ih h')

end Sat

/-! ## Runs that return -/

/-- The state after a run, or the state before it if it panics. -/
def after (x : TraceM ε σ ω α) (s : σ) : σ :=
  match x s with
  | .ok (_, s', _) => s'
  | .error _ => s

/-- The result of a run that returns. -/
def result (x : TraceM ε σ ω α) (s : σ) : Option α :=
  match x s with
  | .ok (a, _, _) => some a
  | .error _ => none

/-- The state after a run that returns. -/
def final (x : TraceM ε σ ω α) (s : σ) : Option σ :=
  match x s with
  | .ok (_, s', _) => some s'
  | .error _ => none

theorem run_of_final {x : TraceM ε σ ω α} {s s' : σ} (h : x.final s = some s') :
    ∃ a l, x s = .ok (a, s', l) := by
  unfold final at h
  split at h
  · next a s₁ l hx =>
      cases h
      exact ⟨a, l, hx⟩
  · cases h

/-- The events of a run that returns satisfy `P`. -/
def eventsAll (P : ω → Bool) (x : TraceM ε σ ω α) (s : σ) : Bool :=
  match x s with
  | .ok (_, _, l) => l.all P
  | .error _ => true

/-- A result comes with a run. -/
theorem run_of_result {x : TraceM ε σ ω α} {s : σ} {a : α} (h : x.result s = some a) :
    ∃ l, x s = .ok (a, x.after s, l) := by
  unfold result at h
  unfold after
  cases hx : x s with
  | error e =>
    rw [hx] at h
    cases h
  | ok r =>
    obtain ⟨b, s', l⟩ := r
    rw [hx] at h
    cases h
    exact ⟨l, rfl⟩

/-- A judgement may refer to how the run ends. -/
theorem Sat.ends (x : TraceM ε σ ω α) (s : σ) :
    Sat .lenient x (fun a s' => x.result s = some a ∧ x.after s = s') s := by
  unfold Sat result after
  cases x s with
  | error e => trivial
  | ok r => exact Or.inr ⟨fun _ _ => trivial, rfl, rfl⟩

/-- `x` returns from `s`, and `Q` holds of its result, its final state and its events. -/
def Returns (x : TraceM ε σ ω α) (Q : α → σ → List ω → Prop) (s : σ) : Prop :=
  ∃ a s' l, x s = .ok (a, s', l) ∧ Q a s' l

namespace Returns

variable {x : TraceM ε σ ω α} {f : α → TraceM ε σ ω β} {s : σ}

/-- A run from a concrete state can be evaluated. -/
instance {Q : α → σ → List ω → Prop} [∀ a s' l, Decidable (Q a s' l)] : Decidable (Returns x Q s) :=
  match h : x s with
  | .ok (a, s', l) => decidable_of_iff (Q a s' l)
      ⟨fun hQ => ⟨a, s', l, h, hQ⟩, fun ⟨_, _, _, h', hQ⟩ => by rw [h] at h'; cases h'; exact hQ⟩
  | .error _ => .isFalse fun ⟨_, _, _, h', _⟩ => by rw [h] at h'; cases h'

instance [DecidableEq ε] {e : ε} : Decidable (x s = .error e) :=
  match x s with
  | .ok _ => .isFalse nofun
  | .error e' => decidable_of_iff (e' = e) (Except.error.injEq e' e ▸ Iff.rfl)

theorem of_ok {Q : α → σ → List ω → Prop} {a : α} {s' : σ} {l : List ω} (h : x s = .ok (a, s', l))
    (hQ : Q a s' l) : Returns x Q s := ⟨a, s', l, h, hQ⟩

theorem ret {Q : α → σ → List ω → Prop} {a : α} (h : Q a s []) :
    Returns (pure a : TraceM ε σ ω α) Q s := of_ok rfl h

theorem update {Q : PUnit → σ → List ω → Prop} {g : σ → σ} (h : Q PUnit.unit (g s) []) :
    Returns (modify g : TraceM ε σ ω PUnit) Q s := of_ok rfl h

theorem mono {Q Q' : α → σ → List ω → Prop} (h : Returns x Q s)
    (hQ : ∀ a s' l, Q a s' l → Q' a s' l) : Returns x Q' s := by
  obtain ⟨a, s', l, hx, h⟩ := h
  exact ⟨a, s', l, hx, hQ a s' l h⟩

theorem and {Q Q' : α → σ → List ω → Prop} (h : Returns x Q s) (h' : Returns x Q' s) :
    Returns x (fun a s' l => Q a s' l ∧ Q' a s' l) s := by
  obtain ⟨a, s', l, hx, hQ⟩ := h
  obtain ⟨a', s'', l', hx', hQ'⟩ := h'
  rw [hx] at hx'
  cases hx'
  exact ⟨a, s', l, hx, hQ, hQ'⟩

/-- **Sequencing**: the events of the first half come first. -/
theorem seq {Q : β → σ → List ω → Prop}
    (h : Returns x (fun a s₁ l₁ => Returns (f a) (fun b s₂ l₂ => Q b s₂ (l₁ ++ l₂)) s₁) s) :
    Returns (x >>= f) Q s := by
  obtain ⟨a, s₁, l₁, hx, b, s₂, l₂, hf, hQ⟩ := h
  exact ⟨b, s₂, l₁ ++ l₂, bind_run hx hf, hQ⟩

theorem seq_get {g : σ → TraceM ε σ ω β} {Q : β → σ → List ω → Prop} (h : Returns (g s) Q s) :
    Returns (get >>= g) Q s := seq (of_ok rfl h)

theorem seq_update {u : σ → σ} {g : PUnit → TraceM ε σ ω β} {Q : β → σ → List ω → Prop}
    (h : Returns (g PUnit.unit) Q (u s)) : Returns (modify u >>= g) Q s := seq (of_ok rfl h)

/-- Running the first half of a sequence when it is known what it does. -/
theorem seq_run {Q : β → σ → List ω → Prop} {a : α} {s' : σ} (h : x s = .ok (a, s', []))
    (hf : Returns (f a) Q s') : Returns (x >>= f) Q s := seq (of_ok h hf)

/-- **A loop over a list**, with an invariant about the elements that are left and the events so
far. -/
theorem forM {f : α → TraceM ε σ ω PUnit} {I : List α → σ → List ω → Prop}
    (hstep : ∀ a l s tr, I (a :: l) s tr → Returns (f a) (fun _ s' tr' => I l s' (tr ++ tr')) s) :
    ∀ {l : List α} {s : σ} {t : List ω}, I l s t →
      Returns (l.forM f) (fun _ s' tr' => I [] s' (t ++ tr')) s := by
  intro l
  induction l with
  | nil =>
    intro s tr h
    exact ret (by simpa using h)
  | cons a l ih =>
    intro s tr h
    refine seq ((hstep a l s tr h).mono fun _ s₁ l₁ h' => ?_)
    exact (ih h').mono fun _ s₂ l₂ h'' => by simpa using h''

end Returns

end TraceM
