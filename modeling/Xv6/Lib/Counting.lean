import Mathlib.Algebra.BigOperators.Ring.Finset
import Mathlib.Algebra.Order.BigOperators.Group.Finset

/-!
# Counting over a finite index

Sums of natural numbers over all indices of a family, and how they change when one member does. A
reference count is such a sum: what each holder contributes, over all holders. And counters of 32 bits
against the numbers they count.
-/

namespace Counting

open Function Finset

variable {ι α : Type*} [Fintype ι] [DecidableEq ι]

/-- A sum over all indices when the member at one of them changes. -/
theorem sum_update (g : α → Nat) (f : ι → α) (i : ι) (v : α) :
    ∑ j, g (update f i v j) + g (f i) = ∑ j, g (f j) + g v := by
  have hnew := add_sum_erase univ (fun j => g (update f i v j))
    (mem_univ i)
  have hold := add_sum_erase univ (fun j => g (f j)) (mem_univ i)
  have hrest : ∑ j ∈ univ.erase i, g (update f i v j) =
      ∑ j ∈ univ.erase i, g (f j) :=
    sum_congr rfl fun j hj => by rw [update_of_ne (ne_of_mem_erase hj)]
  rw [update_self] at hnew
  omega

omit [DecidableEq ι] in
theorem le_sum (g : α → Nat) (f : ι → α) (i : ι) : g (f i) ≤ ∑ j, g (f j) :=
  single_le_sum (f := fun j => g (f j)) (fun _ _ => Nat.zero_le _) (mem_univ i)

/-- The number of members with a property when one member changes. -/
theorem card_filter_update (P : α → Prop) [DecidablePred P] (f : ι → α) (i : ι) (v : α) :
    (univ.filter fun j => P (update f i v j)).card + (if P (f i) then 1 else 0) =
      (univ.filter fun j => P (f j)).card + if P v then 1 else 0 := by
  rw [card_filter, card_filter]
  exact sum_update (fun x => if P x then 1 else 0) f i v

/-! ## Counters of 32 bits -/

theorem toInt_succ {x : Int32} (h : x.toInt + 1 < 2 ^ 31) : (x + 1).toInt = x.toInt + 1 := by
  have hlo := x.le_toInt
  rw [Int32.toInt_add, Int.bmod_eq_of_le] <;> simp <;> omega

/-- A count in 32 bits is at most the count, and less once it has wrapped. -/
theorem toInt_ofNat_le (n : Nat) :
    (Int32.ofNat n).toInt ≤ n ∧ ((Int32.ofNat n).toInt = n ↔ n < 2 ^ 31) := by
  rw [Int32.toInt_ofNat']
  have hb : (n : Int).bmod Int32.size = if (n : Int) % Int32.size < (Int32.size + 1) / 2
    then (n : Int) % Int32.size else (n : Int) % Int32.size - Int32.size := rfl
  have hsize : Int32.size = 2 ^ 32 := rfl
  rw [hsize] at hb ⊢
  constructor
  · omega
  · omega

end Counting
