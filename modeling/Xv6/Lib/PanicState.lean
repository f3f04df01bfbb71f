import Mathlib.Logic.Function.Basic

/-!
# State-passing code that can panic

`PanicM ε σ α` is the type of a computation that reads and writes a state of type `σ` and may stop
for good with a panic of type `ε`. A panic has no final state: nothing runs after it.

The lemmas below are *inversion* lemmas. From "this block returned" they give back the states in
between, so that a proof about a long block peels it apart with `obtain` and never unfolds the
monad. Read from right to left they run a block forwards.
-/

/-- A computation over the state `σ` that may panic with `ε`. -/
abbrev PanicM (ε σ α : Type) := StateT σ (Except ε) α

namespace PanicM

variable {ε σ α β : Type}

/-- A sequence returns exactly when its first half returns and its second half returns from there. -/
theorem bind_ok {x : PanicM ε σ α} {f : α → PanicM ε σ β} {s : σ} {r : β × σ} :
    (x >>= f) s = .ok r ↔ ∃ a s₁, x s = .ok (a, s₁) ∧ f a s₁ = .ok r := by
  show (StateT.bind x f) s = .ok r ↔ _
  unfold StateT.bind
  cases hx : x s with
  | error e =>
    constructor
    · intro h
      cases h
    · rintro ⟨a, s₁, h, -⟩
      cases h
  | ok p =>
    obtain ⟨a, s₁⟩ := p
    constructor
    · intro h
      exact ⟨a, s₁, rfl, h⟩
    · rintro ⟨a', s₁', h, hf⟩
      cases h
      exact hf

/-- Running the first half of a sequence that returns. -/
theorem bind_of_ok {x : PanicM ε σ α} {f : α → PanicM ε σ β} {s s₁ : σ} {a : α}
    (h : x s = .ok (a, s₁)) : (x >>= f) s = f a s₁ := by
  show (StateT.bind x f) s = _
  unfold StateT.bind
  rw [h]
  rfl

/-- A sequence whose first half panics panics with it. -/
theorem bind_of_error {x : PanicM ε σ α} {f : α → PanicM ε σ β} {s : σ} {e : ε}
    (h : x s = .error e) : (x >>= f) s = .error e := by
  show (StateT.bind x f) s = _
  unfold StateT.bind
  rw [h]
  rfl

@[simp] theorem get_bind (f : σ → PanicM ε σ β) (s : σ) : (get >>= f) s = f s s := rfl

@[simp] theorem modify_bind (g : σ → σ) (f : PUnit → PanicM ε σ β) (s : σ) :
    (modify g >>= f) s = f PUnit.unit (g s) := rfl

end PanicM
