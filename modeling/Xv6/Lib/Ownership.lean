import Mathlib.Data.Set.Insert
import Mathlib.Logic.Function.Basic

/-!
# Places that own units

Units of a resource are handed out by an allocator that marks them as used. Each place holds at most
one unit; zero stands for none. The invariant is that a unit in a place is a proper one, is marked,
and is in no other place, so that an unmarked unit is in no place at all.

The events of a computation are judged by `Traffic`: a unit is taken only when no place holds it, and
given back only when one does.
-/

namespace Ownership

open Function

variable {π ν : Type*} [DecidableEq π] [Zero ν]

/-- **Every unit in a place** is a good one, is marked as used, and is in that place only. -/
structure Owned (good used : Set ν) (num : π → ν) : Prop where
  good : ∀ {p}, num p ≠ 0 → num p ∈ good
  used : ∀ {p}, num p ≠ 0 → num p ∈ used
  unique : ∀ {p q}, num p ≠ 0 → num p = num q → p = q

/-- The units that are in some place. -/
def held (num : π → ν) : Set ν := { a | a ≠ 0 ∧ ∃ p, num p = a }

omit [DecidableEq π] in
theorem mem_held {num : π → ν} {p : π} (h : num p ≠ 0) : num p ∈ held num := ⟨h, p, rfl⟩

/-- A unit put into an empty place. -/
theorem held_update_add {num : π → ν} {p : π} {a : ν} (hp : num p = 0) (ha : a ≠ 0) :
    held (update num p a) = insert a (held num) := by
  ext x
  constructor
  · rintro ⟨hx, q, hq⟩
    by_cases hqp : q = p
    · subst hqp
      rw [update_self] at hq
      exact .inl hq.symm
    · rw [update_of_ne hqp] at hq
      exact .inr ⟨hx, q, hq⟩
  · rintro (rfl | ⟨hx, q, hq⟩)
    · exact ⟨ha, p, update_self ..⟩
    · have hqp : q ≠ p := by
        rintro rfl
        exact hx (hq.symm.trans hp)
      exact ⟨hx, q, by rw [update_of_ne hqp]; exact hq⟩

namespace Owned

variable {good used : Set ν} {num : π → ν} {p : π} {a : ν}

omit [DecidableEq π] in
/-- **An unmarked unit** is in no place. -/
theorem notMem_held (h : Owned good used num) (ha : a ∉ used) : a ∉ held num := by
  rintro ⟨hne, q, rfl⟩
  exact ha (h.used hne)

omit [DecidableEq π] in
theorem mark (h : Owned good used num) (a : ν) : Owned good (insert a used) num :=
  ⟨h.good, fun hp => .inr (h.used hp), h.unique⟩

/-- A unit that no place holds, put into a place. -/
theorem store (h : Owned good used num) (hg : a ∈ good) (hu : a ∈ used) (ha : a ∉ held num) :
    Owned good used (update num p a) := by
  have hcases : ∀ q, update num p a q ≠ 0 →
      (q = p ∧ update num p a q = a) ∨
        (q ≠ p ∧ update num p a q = num q ∧ num q ≠ 0) := by
    intro q hq
    by_cases hqp : q = p
    · subst hqp
      exact .inl ⟨rfl, update_self ..⟩
    · rw [update_of_ne hqp] at hq ⊢
      exact .inr ⟨hqp, rfl, hq⟩
  refine ⟨?_, ?_, ?_⟩
  · intro q hq
    rcases hcases q hq with ⟨-, he⟩ | ⟨-, he, hn⟩
    · rw [he]
      exact hg
    · exact he ▸ h.good hn
  · intro q hq
    rcases hcases q hq with ⟨-, he⟩ | ⟨-, he, hn⟩
    · rw [he]
      exact hu
    · exact he ▸ h.used hn
  · intro q r hq hqr
    rcases hcases q hq with ⟨rfl, he⟩ | ⟨hqp, he, hn⟩
    · rcases hcases r (hqr ▸ hq) with ⟨rfl, -⟩ | ⟨-, he', hn'⟩
      · rfl
      · exact absurd (mem_held hn') (by rw [← he', ← hqr, he]; exact ha)
    · rcases hcases r (hqr ▸ hq) with ⟨rfl, he'⟩ | ⟨-, he', -⟩
      · exact absurd (mem_held hn) (by rw [← he, hqr, he']; exact ha)
      · exact h.unique hn (by rw [← he, hqr, he'])

/-- The place of a unit that is given back. -/
theorem release (h : Owned good used num) (hp : num p ≠ 0) :
    Owned good (used \ {num p}) (update num p 0) := by
  have hrest : ∀ {q}, update num p 0 q ≠ 0 →
      q ≠ p ∧ update num p 0 q = num q ∧ num q ≠ 0 := by
    intro q hq
    by_cases hqp : q = p
    · subst hqp
      exact absurd (update_self ..) hq
    · rw [update_of_ne hqp] at hq ⊢
      exact ⟨hqp, rfl, hq⟩
  refine ⟨?_, ?_, ?_⟩
  · intro q hq
    obtain ⟨-, he, hn⟩ := hrest hq
    exact he ▸ h.good hn
  · intro q hq
    obtain ⟨hqp, he, hn⟩ := hrest hq
    rw [he]
    exact ⟨h.used hn, fun hx => hqp (h.unique hn hx)⟩
  · intro q r hq hqr
    obtain ⟨-, he, hn⟩ := hrest hq
    obtain ⟨-, he', -⟩ := hrest (hqr ▸ hq)
    exact h.unique hn (by rw [← he, hqr, he'])

/-- A place that is released holds nothing. -/
theorem held_release (h : Owned good used num) (hp : num p ≠ 0) :
    held (update num p 0) = held num \ {num p} := by
  ext x
  constructor
  · rintro ⟨hx, q, hq⟩
    have hqp : q ≠ p := by
      rintro rfl
      rw [update_self] at hq
      exact hx hq.symm
    rw [update_of_ne hqp] at hq
    subst hq
    exact ⟨⟨hx, q, rfl⟩, fun he => hqp (h.unique hx he)⟩
  · rintro ⟨⟨hx, q, rfl⟩, hne⟩
    have hqp : q ≠ p := by
      rintro rfl
      exact hne rfl
    exact ⟨hx, q, update_of_ne hqp ..⟩

end Owned

/-- A unit goes to a place, or comes back. -/
inductive Change (ν : Type*) where
  | take (a : ν)
  | give (a : ν)

/-- The units in places before and after a sequence of events: what is taken was in no place, what is
given back was in one. -/
def Traffic (U : Set ν) : List (Change ν) → Set ν → Prop
  | [], V => U = V
  | .take a :: l, V => a ∉ U ∧ Traffic (insert a U) l V
  | .give a :: l, V => a ∈ U ∧ Traffic (U \ {a}) l V

omit [Zero ν] in
theorem Traffic.append {U V W : Set ν} {l l' : List (Change ν)} (h : Traffic U l V)
    (h' : Traffic V l' W) : Traffic U (l ++ l') W := by
  induction l generalizing U with
  | nil =>
    cases h
    exact h'
  | cons e l ih =>
    cases e with
    | take a => exact ⟨h.1, ih h.2⟩
    | give a => exact ⟨h.1, ih h.2⟩

end Ownership
