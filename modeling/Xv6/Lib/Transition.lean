import Mathlib.Data.List.Basic
import Mathlib.Logic.Relation

/-!
# Runs of a transition system

A transition system is a relation `step s a s'`: in state `s` the action `a` may lead to `s'`. A run
is a finite sequence of steps; every state a system reaches is the last state of some run, so a
property of the last state of every run is a property of every state reached.
-/

namespace Transition

open List

variable {σ α : Type*}

/-- The runs of `step`, each with the actions it took, the latest one last. -/
inductive Run (step : σ → α → σ → Prop) (s₀ : σ) : List α → σ → Prop
  | nil : Run step s₀ [] s₀
  | snoc {as : List α} {s s' : σ} {a : α} :
      Run step s₀ as s → step s a s' → Run step s₀ (as ++ [a]) s'

/-- The steps of a system that meet a condition on the state before the step and the action. -/
def Guarded (step : σ → α → σ → Prop) (C : σ → α → Prop) : σ → α → σ → Prop :=
  fun s a s' => C s a ∧ step s a s'

variable {step : σ → α → σ → Prop} {s₀ s s' : σ} {as : List α}

/-- **The invariant rule**: what holds at the start and is kept by each step holds after every run. -/
theorem Run.invariant {I : σ → Prop} (h₀ : I s₀)
    (hstep : ∀ s a s', I s → step s a s' → I s') (h : Run step s₀ as s) : I s := by
  induction h with
  | nil => exact h₀
  | snoc _ hs ih => exact hstep _ _ _ ih hs

/-- **Forward simulation**: a system whose steps another one can follow, action by action, is followed
by it in every run. -/
theorem Run.simulate {τ : Type*} {step' : τ → α → τ → Prop} {I : σ → τ → Prop} {t₀ : τ} (h₀ : I s₀ t₀)
    (hstep : ∀ s t a s', I s t → step s a s' → ∃ t', step' t a t' ∧ I s' t')
    (h : Run step s₀ as s) : ∃ t, Run step' t₀ as t ∧ I s t := by
  induction h with
  | nil => exact ⟨t₀, .nil, h₀⟩
  | snoc _ hs ih =>
    obtain ⟨t, hrun, hI⟩ := ih
    obtain ⟨t', ht, hI'⟩ := hstep _ _ _ _ hI hs
    exact ⟨t', .snoc hrun ht, hI'⟩

/-- One run after another. -/
theorem Run.append {s'' : σ} {bs : List α} (h : Run step s₀ as s) (h' : Run step s bs s'') :
    Run step s₀ (as ++ bs) s'' := by
  induction h' with
  | nil =>
    rw [append_nil]
    exact h
  | snoc _ hs ih =>
    rw [← append_assoc]
    exact .snoc ih hs

theorem Run.single {a : α} (h : step s a s') : Run step s [a] s' := .snoc .nil h

/-- The last step of a run. -/
theorem Run.unsnoc {a : α} (h : Run step s₀ (as ++ [a]) s') : ∃ s, Run step s₀ as s ∧ step s a s' := by
  generalize hbs : as ++ [a] = bs at h
  cases h with
  | nil => exact absurd hbs (by simp)
  | snoc hrun hs =>
    obtain ⟨rfl, ha⟩ := append_inj' hbs rfl
    obtain rfl := singleton_inj.mp ha
    exact ⟨_, hrun, hs⟩

theorem Run.eq_of_nil (h : Run step s₀ [] s) : s = s₀ := by
  generalize has : ([] : List α) = as at h
  cases h with
  | nil => rfl
  | snoc _ _ => exact absurd has.symm (by simp)

/-- Every action of a run is a step from a state the run passed through. -/
theorem Run.split {pre post : List α} {a : α} (h : Run step s₀ as s) (has : as = pre ++ a :: post) :
    ∃ t t', Run step s₀ pre t ∧ step t a t' := by
  induction h generalizing post with
  | nil => exact absurd has.symm (by simp)
  | @snoc bs t t' b hrun hstep ih =>
    rcases eq_nil_or_concat post with rfl | ⟨post', c, rfl⟩
    · obtain ⟨rfl, hb⟩ := append_inj' has rfl
      obtain rfl := singleton_inj.mp hb
      exact ⟨t, t', hrun, hstep⟩
    · rw [concat_eq_append, ← cons_append, ← append_assoc] at has
      exact ih (append_inj' has rfl).1

/-- A run in which every step meets a condition is a run. -/
theorem Run.of_guarded {C : σ → α → Prop} (h : Run (Guarded step C) s₀ as s) :
    Run step s₀ as s := by
  induction h with
  | nil => exact .nil
  | snoc _ hs ih => exact .snoc ih hs.2

/-- A run given state by state. -/
theorem Run.of_forall {f : Nat → σ} {a : Nat → α} {n : Nat} (h : ∀ k < n, step (f k) (a k) (f (k + 1))) :
    Run step (f 0) ((range n).map a) (f n) := by
  induction n with
  | zero => exact .nil
  | succ n ih =>
    rw [range_succ, map_append]
    exact (ih fun k hk => h k (Nat.lt_succ_of_lt hk)).snoc (h n (Nat.lt_succ_self n))

/-- A condition on the actions of a run alone. -/
theorem Run.guarded {C : α → Prop} (h : Run step s₀ as s) (hC : ∀ a ∈ as, C a) :
    Run (Guarded step fun _ a => C a) s₀ as s := by
  induction h with
  | nil => exact .nil
  | snoc _ hs ih => exact .snoc (ih fun a ha => hC a (mem_append_left _ ha)) ⟨hC _ (by simp), hs⟩

/-- **Runs by evaluation**: a function that computes steps finds runs. -/
theorem Run.of_exec {exec : σ → α → Option σ} {P : σ → Bool} (h : (as.foldlM exec s₀).any P = true)
    (hexec : ∀ s a s', exec s a = some s' → step s a s') : ∃ s, Run step s₀ as s ∧ P s = true := by
  induction as generalizing s₀ with
  | nil => exact ⟨s₀, .nil, h⟩
  | cons a as ih =>
    rw [foldlM_cons] at h
    cases hs : exec s₀ a with
    | none => simp [hs] at h
    | some s₁ =>
      rw [hs] at h
      obtain ⟨s, hrun, hP⟩ := ih h
      exact ⟨s, (Run.single (hexec _ _ _ hs)).append hrun, hP⟩

end Transition
