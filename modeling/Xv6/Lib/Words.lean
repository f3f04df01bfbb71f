import Mathlib.Data.List.Basic
import Mathlib.Data.UInt
import Mathlib.Tactic.NormNum

/-!
# Words in a byte array

A byte array of fixed length read and written as an array of 32-bit words, the least significant byte
first.
-/

namespace Words

open List

variable {len : Nat}

/-- The byte at an offset. -/
def byte (a : Fin len → UInt8) (k : Nat) : Nat := if h : k < len then (a ⟨k, h⟩).toNat else 0

/-- The word with index `i`. -/
def word (a : Fin len → UInt8) (i : Nat) : Nat :=
  byte a (4 * i) + byte a (4 * i + 1) * 2 ^ 8 + byte a (4 * i + 2) * 2 ^ 16 + byte a (4 * i + 3) * 2 ^ 24

/-- The array with the word with index `i` replaced. -/
def setWord (a : Fin len → UInt8) (i v : Nat) : Fin len → UInt8 := fun k =>
  if k.val / 4 = i then UInt8.ofNat (v / 256 ^ (k.val % 4)) else a k

theorem byte_setWord (a : Fin len → UInt8) (i v k : Nat) :
    byte (setWord a i v) k =
      if k < len ∧ k / 4 = i then v / 256 ^ (k % 4) % 256 else byte a k := by
  unfold byte setWord
  by_cases hk : k < len
  · by_cases hi : k / 4 = i
    · simp [hk, hi]
    · simp [hk, hi]
  · simp [hk]

/-- A word is read back as it was written. -/
theorem word_setWord_self (a : Fin len → UInt8) {i v : Nat} (hi : 4 * i + 3 < len)
    (hv : v < 2 ^ 32) : word (setWord a i v) i = v := by
  have hbyte : ∀ j, j < 4 → byte (setWord a i v) (4 * i + j) = v / 256 ^ j % 256 := by
    intro j hj
    rw [byte_setWord, if_pos ⟨by omega, by omega⟩]
    congr 3
    omega
  have h₀ := hbyte 0 (by decide)
  have h₁ := hbyte 1 (by decide)
  have h₂ := hbyte 2 (by decide)
  have h₃ := hbyte 3 (by decide)
  unfold word
  rw [show 4 * i = 4 * i + 0 from rfl, h₀, show 4 * i + 0 + 1 = 4 * i + 1 from rfl, h₁,
    show 4 * i + 0 + 2 = 4 * i + 2 from rfl, h₂, show 4 * i + 0 + 3 = 4 * i + 3 from rfl, h₃]
  norm_num at hv ⊢
  omega

/-- Other words stay. -/
theorem word_setWord_of_ne (a : Fin len → UInt8) {i j v : Nat} (h : j ≠ i) :
    word (setWord a i v) j = word a j := by
  have hbyte : ∀ k, k < 4 → byte (setWord a i v) (4 * j + k) = byte a (4 * j + k) := by
    intro k hk
    rw [byte_setWord, if_neg]
    omega
  unfold word
  rw [hbyte 1 (by decide), hbyte 2 (by decide), hbyte 3 (by decide)]
  have h₀ := hbyte 0 (by decide)
  rw [Nat.add_zero] at h₀
  rw [h₀]

theorem word_zero (i : Nat) : word (fun _ : Fin len => 0) i = 0 := by
  have hbyte : ∀ k, byte (fun _ : Fin len => 0) k = 0 := by
    intro k
    unfold byte
    split <;> rfl
  simp [word, hbyte]

theorem byte_lt (a : Fin len → UInt8) (k : Nat) : byte a k < 256 := by
  unfold byte
  split
  · exact UInt8.toNat_lt _
  · decide

theorem word_lt (a : Fin len → UInt8) (i : Nat) : word a i < 2 ^ 32 := by
  have h₀ := byte_lt a (4 * i)
  have h₁ := byte_lt a (4 * i + 1)
  have h₂ := byte_lt a (4 * i + 2)
  have h₃ := byte_lt a (4 * i + 3)
  unfold word
  omega

/-- An array of zero words is zero. -/
theorem eq_zero_of_words {a : Fin len → UInt8} (h : ∀ i, word a i = 0) : a = fun _ => 0 := by
  funext k
  have hword := h (k.val / 4)
  unfold word at hword
  have hbyte : byte a k = 0 := by
    have hk : k.val = 4 * (k.val / 4) + k.val % 4 := (Nat.div_add_mod _ _).symm
    have hmod : k.val % 4 < 4 := Nat.mod_lt _ (by decide)
    generalize k.val / 4 = i at *
    rw [hk]
    generalize k.val % 4 = r at *
    obtain rfl | rfl | rfl | rfl : r = 0 ∨ r = 1 ∨ r = 2 ∨ r = 3 := by omega
    · rw [Nat.add_zero]
      omega
    · omega
    · omega
    · omega
  rw [byte, dif_pos k.isLt] at hbyte
  exact UInt8.toNat_inj.mp hbyte

attribute [irreducible] word

/-- The array with the words from index `i` on replaced by those of a list. -/
def setWords (a : Fin len → UInt8) (i : Nat) : List Nat → Fin len → UInt8
  | [] => a
  | v :: vs => setWords (setWord a i v) (i + 1) vs

/-- `n` words from index `i` on. -/
def words (a : Fin len → UInt8) (i n : Nat) : List Nat := (List.range n).map fun j => word a (i + j)

theorem word_setWords_of_lt (vs : List Nat) : ∀ (a : Fin len → UInt8) {i j : Nat}, j < i →
    word (setWords a i vs) j = word a j := by
  induction vs with
  | nil => exact fun _ _ _ _ => rfl
  | cons v vs ih =>
    intro a i j h
    rw [setWords, ih _ (by omega), word_setWord_of_ne a (by omega)]

theorem words_succ (a : Fin len → UInt8) (i n : Nat) :
    words a i (n + 1) = word a i :: words a (i + 1) n := by
  unfold words
  rw [range_succ_eq_map, map_cons, map_map, Nat.add_zero]
  congr 1
  apply map_congr_left
  intro j _
  rw [Function.comp, Nat.succ_eq_add_one, Nat.add_comm j, Nat.add_assoc]

/-- **Reading back** a list of words. -/
theorem words_setWords (vs : List Nat) : ∀ (a : Fin len → UInt8) {i : Nat},
    4 * (i + vs.length) ≤ len → (∀ v ∈ vs, v < 2 ^ 32) → words (setWords a i vs) i vs.length = vs := by
  induction vs with
  | nil => exact fun _ _ _ _ => rfl
  | cons v vs ih =>
    intro a i hlen hv
    simp only [length_cons] at hlen ⊢
    rw [words_succ, setWords, ih _ (by omega) fun v' h => hv v' (mem_cons_of_mem _ h),
      word_setWords_of_lt vs _ (Nat.lt_succ_self i),
      word_setWord_self a (by omega) (hv v mem_cons_self)]

/-- Words written in a row are read back. -/
theorem word_setWords_get (vs : List Nat) : ∀ (a : Fin len → UInt8) {i j v : Nat},
    4 * (i + vs.length) ≤ len → (∀ v ∈ vs, v < 2 ^ 32) → vs[j]? = some v →
    word (setWords a i vs) (i + j) = v := by
  induction vs with
  | nil => exact fun _ _ _ _ _ _ h => absurd h (by simp)
  | cons w vs ih =>
    intro a i j v hlen hv h
    rw [length_cons] at hlen
    rw [setWords]
    cases j with
    | zero =>
      cases h
      show word (setWords (setWord a i w) (i + 1) vs) i = w
      rw [word_setWords_of_lt vs _ (Nat.lt_succ_self i),
        word_setWord_self a (by omega) (hv w mem_cons_self)]
    | succ j =>
      rw [show i + (j + 1) = i + 1 + j by omega]
      exact ih _ (by omega) (fun v' h => hv v' (mem_cons_of_mem _ h)) h

theorem word_setWords_of_ge (vs : List Nat) : ∀ (a : Fin len → UInt8) {i j : Nat},
    i + vs.length ≤ j → word (setWords a i vs) j = word a j := by
  induction vs with
  | nil => exact fun _ _ _ _ => rfl
  | cons v vs ih =>
    intro a i j h
    rw [length_cons] at h
    rw [setWords, ih _ (by omega), word_setWord_of_ne a (by omega)]

end Words
