import Mathlib.Data.List.FinRange
import Mathlib.Data.Fintype.Basic

/-!
# Scanning a table for its first entry with a property

`for (i = 0; i < n; i++) if (p(i)) { …; break; }` finds the first index at which `p` holds.
`firstIdx p` is that index, if there is one.
-/

/-- The first index of a table of length `n` at which `p` holds. -/
def firstIdx {n : Nat} (p : Fin n → Bool) : Option (Fin n) := (List.finRange n).find? p

section

variable {n : Nat} {p : Fin n → Bool} {i : Fin n}

/-- The index found has the property. -/
theorem firstIdx_holds (h : firstIdx p = some i) : p i = true := List.find?_some h

/-- Nothing is found exactly when no entry has the property. -/
theorem firstIdx_eq_none : firstIdx p = none ↔ ∀ j, p j = false := by
  unfold firstIdx
  rw [List.find?_eq_none]
  constructor
  · intro h j
    simpa using h j (List.mem_finRange j)
  · intro h j _
    simp [h j]

/-- An entry with the property makes the scan succeed. -/
theorem firstIdx_isSome (h : p i = true) : ∃ j, firstIdx p = some j := by
  cases hf : firstIdx p with
  | some j => exact ⟨j, rfl⟩
  | none =>
    have := firstIdx_eq_none.mp hf i
    rw [h] at this
    cases this

/-- The scan stops at `i` when `p` holds there and at no index before it. -/
theorem firstIdx_eq_some_of (h : p i = true) (hlt : ∀ j, j < i → p j = false) :
    firstIdx p = some i := by
  unfold firstIdx
  rw [List.find?_eq_some_iff_getElem]
  refine ⟨h, i.val, by simp, by simp, ?_⟩
  intro j hj
  have hjn : j < n := lt_trans hj i.isLt
  have := hlt ⟨j, hjn⟩ hj
  simp [this]

/-- Everything before the index found fails the property. -/
theorem firstIdx_before (h : firstIdx p = some i) {j : Fin n} (hj : j < i) : p j = false := by
  unfold firstIdx at h
  rw [List.find?_eq_some_iff_getElem] at h
  obtain ⟨-, m, hm, hmi, hbefore⟩ := h
  have hmi' : m = i.val := by
    have := congrArg Fin.val hmi
    simpa using this
  have := hbefore j.val (by omega)
  simpa using this

end

-- A scan is only used through the lemmas above; unfolding it over a long table costs too much.
attribute [irreducible] firstIdx
