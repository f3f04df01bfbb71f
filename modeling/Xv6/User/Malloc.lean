import Xv6.Lib.SortedRing

/-!
# The user heap

`free`, `morecore` and `malloc` of `user/umalloc.c`. Memory is a map from addresses to headers: of the
bytes of the heap the allocator reads and writes only the headers of blocks. Addresses count bytes and
are not bounded, sizes are counted in units of `sizeof(Header)`, which is 16 bytes, and are 32 bits
wide.

`sbrk` belongs to the environment: it fails, or it hands out fresh memory somewhere above all it
handed out before. The two loops take a bound on their number of iterations; `none` means that it was
not enough.
-/

namespace Xv6.Malloc

open Function

/-- `union header`. -/
structure Header where
  ptr : Nat
  size : Nat

/-- The memory of a process, `freep`, and what `sbrk` handed out: the address above all of it and the
regions with their lengths. -/
structure Heap where
  mem : Nat → Header
  freep : Nat
  brk : Nat
  regions : List (Nat × Nat)

namespace Heap

variable (h : Heap)

def ptr (p : Nat) : Nat := (h.mem p).ptr

def size (p : Nat) : Nat := (h.mem p).size

def setPtr (p v : Nat) : Heap := { h with mem := update h.mem p { h.mem p with ptr := v } }

def setSize (p v : Nat) : Heap := { h with mem := update h.mem p { h.mem p with size := v } }

def setFreep (p : Nat) : Heap := { h with freep := p }

/-- `p + p->s.size`. -/
def above (p : Nat) : Nat := p + 16 * h.size p

/-- A call of `sbrk` that succeeds: `n` bytes, `gap` bytes above the earlier ones. -/
def grow (gap n : Nat) : Heap :=
  { h with brk := h.brk + gap + n, regions := (h.brk + gap, n) :: h.regions }

end Heap

/-- The sum of two sizes, as a `uint`. -/
def sum (m n : Nat) : Nat := (m + n) % 2 ^ 32

/-- The first test of `free`: does the block `bp`, whose place is behind `p`, touch the next one? -/
def mergeUp (h : Heap) (bp p : Nat) : Heap :=
  if h.above bp = h.ptr p then
    (h.setSize bp (sum (h.size bp) (h.size (h.ptr p)))).setPtr bp (h.ptr (h.ptr p))
  else h.setPtr bp (h.ptr p)

/-- The second test of `free`: does `p` touch the block? -/
def mergeDown (h : Heap) (bp p : Nat) : Heap :=
  if h.above p = bp then (h.setSize p (sum (h.size p) (h.size bp))).setPtr p (h.ptr bp)
  else h.setPtr p bp

/-- What `free` does once it has found the place of the block `bp` behind `p`. -/
def link (h : Heap) (bp p : Nat) : Heap := (mergeDown (mergeUp h bp p) bp p).setFreep p

/-- `free`. -/
def free (fuel : Nat) (h : Heap) (ap : Nat) : Option Heap :=
  let bp := ap - 16
  (walk h.ptr (fun p => SortedRing.Fits h.ptr bp p) fuel h.freep).map (link h bp)

/-- `morecore`, with the answer of `sbrk`. -/
def morecore (fuel : Nat) (h : Heap) (nu : Nat) (answer : Option Nat) : Option (Nat × Heap) :=
  let nu := if nu < 4096 then 4096 else nu
  match answer with
  | none => some (0, h)
  | some gap =>
    let hp := h.brk + gap
    (free fuel ((h.grow gap (nu * 16)).setSize hp nu) (hp + 16)).map fun h => (h.freep, h)

/-- What `malloc` does with a block `p` that is large enough. -/
def take (h : Heap) (nunits prevp p : Nat) : Nat × Heap :=
  if h.size p = nunits then (p + 16, (h.setPtr prevp (h.ptr p)).setFreep prevp)
  else
    let h₁ := h.setSize p (h.size p - nunits)
    let q := h₁.above p
    (q + 16, (h₁.setSize q nunits).setFreep prevp)

/-- The loop of `malloc`, with the answers of `sbrk`. -/
def mallocLoop (nunits : Nat) : Nat → Heap → (Nat → Option Nat) → Nat → Nat → Option (Nat × Heap)
  | 0, _, _, _, _ => none
  | fuel + 1, h, answer, prevp, p =>
    if nunits ≤ h.size p then some (take h nunits prevp p)
    else if p = h.freep then
      match morecore fuel h nunits (answer 0) with
      | none => none
      | some (q, h') =>
        if q = 0 then some (0, h')
        else mallocLoop nunits fuel h' (fun i => answer (i + 1)) q (h'.ptr q)
    else mallocLoop nunits fuel h answer p (h.ptr p)

/-- `malloc`. `base` is the address of the static header. -/
def malloc (base fuel : Nat) (h : Heap) (nbytes : UInt32) (answer : Nat → Option Nat) :
    Option (Nat × Heap) :=
  let nunits := (nbytes.toNat + 16 - 1) / 16 + 1
  let h := if h.freep = 0 then ((h.setPtr base base).setSize base 0).setFreep base else h
  mallocLoop nunits fuel h answer h.freep (h.ptr h.freep)

/-! ## The fields of a header after a write -/

namespace Heap

variable {h : Heap} {p q v : Nat}

@[simp] theorem setPtr_ptr_self : (h.setPtr p v).ptr p = v := by
  simp [ptr, setPtr]

@[simp] theorem setPtr_ptr_of_ne (hne : q ≠ p) : (h.setPtr p v).ptr q = h.ptr q := by
  simp [ptr, setPtr, hne]

@[simp] theorem setPtr_size : (h.setPtr p v).size q = h.size q := by
  unfold size setPtr
  by_cases hq : q = p
  · simp [hq]
  · simp [hq]

@[simp] theorem setSize_size_self : (h.setSize p v).size p = v := by
  simp [size, setSize]

@[simp] theorem setSize_size_of_ne (hne : q ≠ p) : (h.setSize p v).size q = h.size q := by
  simp [size, setSize, hne]

@[simp] theorem setSize_ptr : (h.setSize p v).ptr q = h.ptr q := by
  unfold ptr setSize
  by_cases hq : q = p
  · simp [hq]
  · simp [hq]

@[simp] theorem setFreep_ptr : (h.setFreep p).ptr q = h.ptr q := rfl

@[simp] theorem setFreep_size : (h.setFreep p).size q = h.size q := rfl

theorem setPtr_ptr_eq : (h.setPtr p v).ptr = update h.ptr p v := by
  funext q
  by_cases hq : q = p
  · rw [hq, setPtr_ptr_self, update_self]
  · rw [setPtr_ptr_of_ne hq, update_of_ne hq]

end Heap

/-! ## Blocks -/

namespace Heap

/-- The units a block takes up: its size, and at least its header. A size that wrapped around may be
smaller than what was put together, never larger. -/
def foot (h : Heap) (b : Nat) : Nat := max 1 (h.size b)

/-- The byte `x` was handed out by `sbrk`. -/
def Obtained (h : Heap) (x : Nat) : Prop := ∃ r ∈ h.regions, r.1 ≤ x ∧ x < r.1 + r.2

end Heap

/-- The blocks `B` lie side by side, the static header `base` below all others, in memory that `sbrk`
handed out. -/
structure Layout (base : Nat) (h : Heap) (B : Set Nat) : Prop where
  base_le : ∀ b ∈ B, base ≤ b
  apart : ∀ p ∈ B, ∀ q ∈ B, p < q → p + 16 * h.foot p ≤ q
  inside : ∀ b ∈ B, b ≠ base → ∀ x, b ≤ x → x < b + 16 * h.foot b → h.Obtained x
  below : ∀ b ∈ B, b + 16 * h.foot b ≤ h.brk
  size_lt : ∀ b ∈ B, h.size b < 2 ^ 32

namespace Layout

variable {base : Nat} {h h' : Heap} {B : Set Nat} {b p q n : Nat}

theorem congr (hl : Layout base h B) (hsize : ∀ b ∈ B, h'.size b = h.size b) (hbrk : h'.brk = h.brk)
    (hregions : h'.regions = h.regions) : Layout base h' B := by
  have hfoot : ∀ b ∈ B, h'.foot b = h.foot b := by
    intro b hb
    rw [Heap.foot, Heap.foot, hsize b hb]
  refine ⟨hl.base_le, ?_, ?_, ?_, ?_⟩
  · intro p hp
    rw [hfoot p hp]
    exact hl.apart p hp
  · intro b hb hne x
    rw [hfoot b hb, Heap.Obtained, hregions]
    exact hl.inside b hb hne x
  · intro b hb
    rw [hfoot b hb, hbrk]
    exact hl.below b hb
  · intro b hb
    rw [hsize b hb]
    exact hl.size_lt b hb

/-- Two blocks that touch become one. Its size may wrap around, and then the rest is lost. -/
theorem join (hl : Layout base h B) (hb : b ∈ B) (hq : q ∈ B) (hne : b ≠ q) (hbase : b ≠ base)
    (htouch : h.above b = q) : Layout base (h.setSize b (sum (h.size b) (h.size q))) (B \ {q}) := by
  have hpos : 1 ≤ h.size b := by
    unfold Heap.above at htouch
    omega
  have hlt : b < q := by
    rw [← htouch, Heap.above]
    omega
  have hfoot : 16 * (h.setSize b (sum (h.size b) (h.size q))).foot b ≤
      16 * h.size b + 16 * h.foot q := by
    have hle : sum (h.size b) (h.size q) ≤ h.size b + h.size q := Nat.mod_le _ _
    unfold Heap.foot
    rw [Heap.setSize_size_self]
    omega
  have hother : ∀ x, x ≠ b → (h.setSize b (sum (h.size b) (h.size q))).foot x = h.foot x := by
    intro x hx
    rw [Heap.foot, Heap.foot, Heap.setSize_size_of_ne hx]
  have hfootb : h.foot b = h.size b := max_eq_right hpos
  have hend : b + 16 * h.size b = q := htouch
  refine ⟨fun x hx => hl.base_le x hx.1, ?_, ?_, ?_, ?_⟩
  · intro x hx y hy hxy
    by_cases hxb : x = b
    · subst hxb
      -- No block starts inside the lower one, so `y` lies above the upper one too.
      have hy₁ := hl.apart x hb y hy.1 hxy
      have hyq : y ≠ q := hy.2
      have hy₂ := hl.apart q hq y hy.1 (by omega)
      omega
    · rw [hother x hxb]
      exact hl.apart x hx.1 y hy.1 hxy
  · intro x hx hxbase y hxy hy
    show h.Obtained y
    by_cases hxb : x = b
    · subst hxb
      by_cases hyq : y < q
      · exact hl.inside x hb hbase y hxy (by omega)
      · have hqbase : q ≠ base := by
          have := hl.base_le x hb
          omega
        exact hl.inside q hq hqbase y (by omega) (by omega)
    · rw [hother x hxb] at hy
      exact hl.inside x hx.1 hxbase y hxy hy
  · intro x hx
    show _ ≤ h.brk
    by_cases hxb : x = b
    · subst hxb
      have := hl.below q hq
      omega
    · rw [hother x hxb]
      exact hl.below x hx.1
  · intro x hx
    by_cases hxb : x = b
    · subst hxb
      rw [Heap.setSize_size_self]
      exact Nat.mod_lt _ (by decide)
    · rw [Heap.setSize_size_of_ne hxb]
      exact hl.size_lt x hx.1

/-- The last `n` units of a block become a block of their own. -/
theorem split (hl : Layout base h B) (hb : b ∈ B) (hbase : b ≠ base) (hn : 0 < n) (hlt : n < h.size b) :
    Layout base ((h.setSize b (h.size b - n)).setSize (b + 16 * (h.size b - n)) n)
      (insert (b + 16 * (h.size b - n)) B) ∧ b + 16 * (h.size b - n) ∉ B := by
  obtain ⟨c, hc⟩ : ∃ c, c = b + 16 * (h.size b - n) := ⟨_, rfl⟩
  have hbc : b < c := by omega
  have hfootb : h.foot b = h.size b := max_eq_right (by omega)
  have hnew : c ∉ B := by
    intro hmem
    have := hl.apart b hb c hmem hbc
    omega
  have hsizeb : ((h.setSize b (h.size b - n)).setSize c n).size b = h.size b - n := by
    rw [Heap.setSize_size_of_ne hbc.ne, Heap.setSize_size_self]
  have hsizec : ((h.setSize b (h.size b - n)).setSize c n).size c = n := Heap.setSize_size_self
  have hfoot : ∀ x, x ≠ b → x ≠ c → ((h.setSize b (h.size b - n)).setSize c n).foot x = h.foot x := by
    intro x hxb hxc
    rw [Heap.foot, Heap.foot, Heap.setSize_size_of_ne hxc, Heap.setSize_size_of_ne hxb]
  have hfootb' : ((h.setSize b (h.size b - n)).setSize c n).foot b = h.size b - n := by
    rw [Heap.foot, hsizeb]
    omega
  have hfootc : ((h.setSize b (h.size b - n)).setSize c n).foot c = n := by
    rw [Heap.foot, hsizec]
    omega
  have hbelow := hl.below b hb
  have hlow := hl.base_le b hb
  rw [← hc]
  refine ⟨⟨?_, ?_, ?_, ?_, ?_⟩, hnew⟩
  · rintro x (rfl | hx)
    · omega
    · exact hl.base_le x hx
  · rintro x (rfl | hx) y (rfl | hy) hxy
    · omega
    · have := hl.apart b hb y hy (by omega)
      omega
    · by_cases hxb : x = b
      · subst hxb
        omega
      · rw [hfoot x hxb hxy.ne]
        rcases lt_or_gt_of_ne hxb with hlt' | hgt
        · have := hl.apart x hx b hb hlt'
          omega
        · have := hl.apart b hb x hx hgt
          omega
    · by_cases hxb : x = b
      · subst hxb
        have := hl.apart x hb y hy hxy
        omega
      · rw [hfoot x hxb (by rintro rfl; exact hnew hx)]
        exact hl.apart x hx y hy hxy
  · rintro x (rfl | hx) hxbase y hxy hy
    · exact hl.inside b hb hbase y (by omega) (by omega)
    · by_cases hxb : x = b
      · subst hxb
        exact hl.inside x hb hbase y hxy (by omega)
      · rw [hfoot x hxb (by rintro rfl; exact hnew hx)] at hy
        exact hl.inside x hx hxbase y hxy hy
  · rintro x (rfl | hx)
    · show _ ≤ h.brk
      omega
    · show _ ≤ h.brk
      by_cases hxb : x = b
      · subst hxb
        omega
      · rw [hfoot x hxb (by rintro rfl; exact hnew hx)]
        exact hl.below x hx
  · have hsize := hl.size_lt b hb
    rintro x (rfl | hx)
    · omega
    · by_cases hxb : x = b
      · subst hxb
        omega
      · rw [Heap.setSize_size_of_ne (by rintro rfl; exact hnew hx), Heap.setSize_size_of_ne hxb]
        exact hl.size_lt x hx

/-- A fresh region becomes a block. -/
theorem grow (hl : Layout base h B) (hbase : base ∈ B) (gap : Nat) (hn : 0 < n) (hlt : n < 2 ^ 32) :
    Layout base ((h.grow gap (n * 16)).setSize (h.brk + gap) n) (insert (h.brk + gap) B) ∧
      ∀ b ∈ B, b < h.brk + gap := by
  have hless : ∀ b ∈ B, b + 16 ≤ h.brk := by
    intro b hb
    have := hl.below b hb
    have : 1 ≤ h.foot b := le_max_left _ _
    omega
  have hlow := hless base hbase
  have hself : ((h.grow gap (n * 16)).setSize (h.brk + gap) n).foot (h.brk + gap) = n := by
    rw [Heap.foot, Heap.setSize_size_self]
    omega
  have hother : ∀ x ∈ B, ((h.grow gap (n * 16)).setSize (h.brk + gap) n).foot x = h.foot x := by
    intro x hx
    have := hless x hx
    rw [Heap.foot, Heap.setSize_size_of_ne (by omega)]
    rfl
  refine ⟨⟨?_, ?_, ?_, ?_, ?_⟩, fun b hb => by have := hless b hb; omega⟩
  · rintro x (rfl | hx)
    · omega
    · exact hl.base_le x hx
  · rintro x (rfl | hx) y (rfl | hy) hxy
    · omega
    · have := hless y hy
      omega
    · rw [hother x hx]
      have := hl.below x hx
      omega
    · rw [hother x hx]
      exact hl.apart x hx y hy hxy
  · rintro x (rfl | hx) hxbase y hxy hy
    · rw [hself] at hy
      exact ⟨_, List.mem_cons_self, hxy, by rw [Nat.mul_comm n]; exact hy⟩
    · rw [hother x hx] at hy
      obtain ⟨r, hr, hin⟩ := hl.inside x hx hxbase y hxy hy
      exact ⟨r, List.mem_cons_of_mem _ hr, hin⟩
  · rintro x (rfl | hx)
    · rw [hself]
      show _ ≤ h.brk + gap + n * 16
      omega
    · rw [hother x hx]
      have := hl.below x hx
      show _ ≤ h.brk + gap + n * 16
      omega
  · rintro x (rfl | hx)
    · rw [Heap.setSize_size_self]
      exact hlt
    · have := hless x hx
      rw [Heap.setSize_size_of_ne (by omega)]
      exact hl.size_lt x hx

end Layout

end Xv6.Malloc
