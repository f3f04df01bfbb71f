import Mathlib.Data.BitVec
import Mathlib.Data.List.Range
import Mathlib.Logic.Function.Basic

/-!
# Ring buffers with free-running counters

A ring buffer of `cap` cells with two counters of `w` bits that count the elements ever written and
ever read and wrap around on their own. A counter is reduced modulo `cap` only to find a cell, so full
and empty are told apart by the difference of the counters. This works when `cap` divides `2 ^ w` and
is smaller: then the cells named by `size` consecutive counters are distinct, across a wrap too.
-/

structure RingBuffer (α : Type) (w cap : Nat) where
  data : Fin cap → α
  nread : BitVec w
  nwrite : BitVec w

namespace RingBuffer

open Function List

variable {α : Type} {w cap : Nat} {r : RingBuffer α w cap}

/-- The number of elements in the buffer. -/
def size (r : RingBuffer α w cap) : Nat := (r.nwrite - r.nread).toNat

/-! ## Counters -/

/-- The counters differ by the size. -/
theorem nwrite_eq (r : RingBuffer α w cap) : r.nwrite = r.nread + BitVec.ofNat w r.size := by
  unfold size
  rw [BitVec.ofNat_toNat, BitVec.setWidth_eq, add_sub_cancel]

theorem size_of_nwrite {n : Nat} (hn : n < 2 ^ w) (h : r.nwrite = r.nread + BitVec.ofNat w n) :
    r.size = n := by
  unfold size
  rw [h, add_sub_cancel_left, BitVec.toNat_ofNat, Nat.mod_eq_of_lt hn]

/-- The test for an empty buffer. -/
theorem size_eq_zero : r.size = 0 ↔ r.nread = r.nwrite := by
  constructor
  · intro h
    rw [r.nwrite_eq, h]
    simp
  · intro h
    apply size_of_nwrite (Nat.two_pow_pos w)
    rw [← h]
    simp

/-- The test for a full buffer. -/
theorem size_eq_cap (hcap : cap < 2 ^ w) :
    r.size = cap ↔ r.nwrite = r.nread + BitVec.ofNat w cap := by
  constructor
  · intro h
    rw [r.nwrite_eq, h]
  · exact size_of_nwrite hcap

/-! ## Writing and reading -/

def pop (r : RingBuffer α w cap) : RingBuffer α w cap := { r with nread := r.nread + 1 }

theorem size_pop (h : 0 < r.size) : r.pop.size + 1 = r.size := by
  have hlt : r.size < 2 ^ w := (r.nwrite - r.nread).isLt
  have hpop : r.pop.size = r.size - 1 := by
    apply size_of_nwrite (by omega)
    show r.nwrite = r.nread + 1 + BitVec.ofNat w (r.size - 1)
    have hone : (1 : BitVec w) + BitVec.ofNat w (r.size - 1) = BitVec.ofNat w r.size := by
      rw [show (1 : BitVec w) = BitVec.ofNat w 1 from rfl, ← BitVec.ofNat_add]
      congr 1
      omega
    rw [add_assoc, hone]
    exact r.nwrite_eq
  omega

/-- The youngest element is taken back. -/
def unpush (r : RingBuffer α w cap) : RingBuffer α w cap := { r with nwrite := r.nwrite - 1 }

theorem size_unpush (h : 0 < r.size) : r.unpush.size + 1 = r.size := by
  have hlt : r.size < 2 ^ w := (r.nwrite - r.nread).isLt
  have hunpush : r.unpush.size = r.size - 1 := by
    apply size_of_nwrite (by omega)
    show r.nwrite - 1 = r.nread + BitVec.ofNat w (r.size - 1)
    have hone : BitVec.ofNat w r.size = BitVec.ofNat w (r.size - 1) + (1 : BitVec w) := by
      rw [show (1 : BitVec w) = BitVec.ofNat w 1 from rfl, ← BitVec.ofNat_add]
      congr 1
      omega
    rw [r.nwrite_eq, hone, ← add_assoc, add_sub_cancel_right]
  omega

variable [NeZero cap]

/-- The cell a counter names. -/
def cell (n : BitVec w) : Fin cap := Fin.ofNat cap n.toNat

/-- The elements in the buffer, the oldest first. -/
def contents (r : RingBuffer α w cap) : List α :=
  (List.range r.size).map fun j => r.data (cell (r.nread + BitVec.ofNat w j))

def push (r : RingBuffer α w cap) (a : α) : RingBuffer α w cap :=
  { r with data := update r.data (cell r.nwrite) a, nwrite := r.nwrite + 1 }

/-- The youngest element. -/
def back (r : RingBuffer α w cap) : α := r.data (cell (r.nwrite - 1))

/-- The oldest element. -/
def front (r : RingBuffer α w cap) : α := r.data (cell r.nread)

/-- Only the counter modulo the capacity matters, also when it wraps. -/
theorem cell_add (hdvd : cap ∣ 2 ^ w) (n : BitVec w) (j : Nat) :
    (cell (n + BitVec.ofNat w j) : Fin cap).val = (n.toNat + j) % cap := by
  unfold cell
  rw [Fin.val_ofNat, BitVec.toNat_add, BitVec.toNat_ofNat, Nat.add_mod_mod,
    Nat.mod_mod_of_dvd _ hdvd]

/-- Counters less than a round apart name different cells. -/
theorem cell_add_ne (hdvd : cap ∣ 2 ^ w) (n : BitVec w) {i j : Nat} (hij : i < j) (hj : j < cap) :
    (cell (n + BitVec.ofNat w i) : Fin cap) ≠ cell (n + BitVec.ofNat w j) := by
  intro h
  have hval := congrArg Fin.val h
  rw [cell_add hdvd, cell_add hdvd] at hval
  have hmod : i ≡ j [MOD cap] := Nat.ModEq.add_left_cancel' n.toNat hval
  have heq := Nat.ModEq.eq_of_lt_of_lt hmod (hij.trans hj) hj
  omega

theorem size_push (a : α) (hcap : cap < 2 ^ w) (h : r.size < cap) : (r.push a).size = r.size + 1 := by
  apply size_of_nwrite (by omega)
  show r.nwrite + 1 = r.nread + BitVec.ofNat w (r.size + 1)
  rw [BitVec.ofNat_add, ← add_assoc, ← r.nwrite_eq]
  rfl

/-- **Writing** appends one element, unless the buffer is full. -/
theorem contents_push (a : α) (hdvd : cap ∣ 2 ^ w) (hcap : cap < 2 ^ w) (h : r.size < cap) :
    (r.push a).contents = r.contents ++ [a] := by
  unfold contents
  rw [size_push a hcap h, range_succ, map_append, map_singleton]
  congr 1
  · apply map_congr_left
    intro j hj
    have hne := cell_add_ne hdvd r.nread (mem_range.mp hj) h
    rw [← r.nwrite_eq] at hne
    exact update_of_ne hne _ _
  · show [update r.data (cell r.nwrite) a (cell (r.nread + BitVec.ofNat w r.size))] = [a]
    rw [← r.nwrite_eq, update_self]

/-- **Reading** takes the oldest element off. -/
theorem contents_pop (h : 0 < r.size) : r.contents = r.front :: r.pop.contents := by
  unfold contents
  rw [← size_pop h, range_succ_eq_map, map_cons, map_map]
  congr 1
  · simp [front]
  · apply map_congr_left
    intro j _
    show r.data (cell (r.nread + BitVec.ofNat w (j + 1))) =
      r.data (cell (r.nread + 1 + BitVec.ofNat w j))
    rw [BitVec.ofNat_add, add_comm (BitVec.ofNat w j), ← add_assoc]
    rfl

/-- **Taking back** drops the youngest element. -/
theorem contents_unpush (h : 0 < r.size) : r.contents = r.unpush.contents ++ [r.back] := by
  have hsize := size_unpush h
  have hback : r.nread + BitVec.ofNat w r.unpush.size = r.nwrite - 1 := r.unpush.nwrite_eq.symm
  unfold contents
  rw [← hsize, range_succ, map_append, map_singleton, hback]
  rfl

theorem length_contents (r : RingBuffer α w cap) : r.contents.length = r.size := by
  simp [contents]

end RingBuffer
