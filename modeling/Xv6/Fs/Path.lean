import Xv6.Fs.Dir

/-!
# `kernel/fs.c`: paths

`namex` takes a path apart with `skipelem`, which copies the next element into a buffer of `DIRSIZ` bytes
and returns what is behind it and behind the slashes that follow. A path is the list of its bytes without
the NUL at its end, and the end counts as a zero byte. What the elements of a path are is said without
`skipelem`: the parts between the slashes that are not empty.
-/

namespace Xv6

open List

/-! ## `skipelem` -/

def slash : UInt8 := 47

/-- `char name[DIRSIZ]`. -/
abbrev NameBuf := Fin dirsiz → UInt8

/-- `memmove(name, s, n)`. -/
def NameBuf.move (name : NameBuf) (s : List UInt8) (n : Nat) : NameBuf := fun i =>
  if i < n then s.getD i 0 else name i

/-- `while(*path == '/') path++`. -/
def skipSlashes (path : List UInt8) : List UInt8 := path.dropWhile (· == slash)

/-- `*path != '/' && *path != 0`. -/
def isElem (c : UInt8) : Bool := c != slash && c != 0

/-- `skipelem`: the path it returns, and `name`. -/
def skipelem (path : List UInt8) (name : NameBuf) : Option (List UInt8 × NameBuf) :=
  let s := skipSlashes path
  if s.headD 0 = 0 then none
  else
    let path := s.dropWhile isElem
    let len := s.length - path.length
    let name : NameBuf :=
      if dirsiz ≤ len then name.move s dirsiz
      else fun i => if i = len then 0 else name.move s len i
    some (skipSlashes path, name)

/-! ## Components -/

/-- The parts of a path between slashes that are not empty. -/
def components (path : List UInt8) : List (List UInt8) := (path.splitOn slash).filter (· ≠ [])

/-- A name in its buffer: cut to `DIRSIZ` bytes, and with a NUL at its end if it is shorter. -/
def Spells (name : NameBuf) (elem : List UInt8) : Prop :=
  ∀ i : Fin dirsiz, (i < elem.length → elem[i.val]? = some (name i)) ∧ (i.val = elem.length → name i = 0)

variable {path : List UInt8}

/-- Slashes in front do not count. -/
theorem components_skipSlashes (path : List UInt8) : components (skipSlashes path) = components path := by
  induction path with
  | nil => rfl
  | cons c path ih =>
    unfold skipSlashes at *
    rw [dropWhile_cons]
    split
    · next hc =>
        rw [ih]
        unfold components List.splitOn
        rw [splitOnP_cons_eq_if_modifyHead, if_pos hc]
        rfl
    · rfl

/-- The head of what `skipSlashes` leaves. -/
theorem skipSlashes_head {c : UInt8} {s : List UInt8} (h : skipSlashes path = c :: s) : c ≠ slash := by
  have hne : skipSlashes path ≠ [] := by
    rw [h]
    exact cons_ne_nil _ _
  have hhead := head_dropWhile_not _ hne
  change ((skipSlashes path).head hne == slash) = false at hhead
  simp only [h, head_cons, beq_eq_false_iff_ne] at hhead
  exact hhead

/-- The first component, and the rest. -/
theorem components_cons {c : UInt8} {s : List UInt8} (hc : c ≠ slash) (h0 : 0 ∉ c :: s) :
    (c :: s).takeWhile isElem ≠ [] ∧
    components (c :: s) = (c :: s).takeWhile isElem :: components (skipSlashes ((c :: s).dropWhile isElem)) := by
  have hsplit := takeWhile_append_dropWhile (p := isElem) (l := c :: s)
  have hne : (c :: s).takeWhile isElem ≠ [] := by
    have hc0 : c ≠ 0 := fun hf => h0 (hf ▸ mem_cons_self)
    simp [isElem, hc, hc0]
  have hfree : ∀ x ∈ (c :: s).takeWhile isElem, (x == slash) = false := by
    intro x hx
    have := mem_takeWhile_imp hx
    simp only [isElem, Bool.and_eq_true, bne_iff_ne] at this
    simp [this.1]
  refine ⟨hne, ?_⟩
  rw [components_skipSlashes]
  generalize (c :: s).takeWhile isElem = w at *
  cases hr : (c :: s).dropWhile isElem with
  | nil =>
    rw [hr, append_nil] at hsplit
    rw [← hsplit]
    unfold components List.splitOn
    rw [splitOnP_eq_singleton hfree]
    simp [hne]
  | cons d r =>
    -- the element ends at a slash: there is no NUL
    obtain rfl : d = slash := by
      have hd := head_dropWhile_not isElem (l := c :: s) (by rw [hr]; exact cons_ne_nil _ _)
      simp only [hr, head_cons, isElem, Bool.and_eq_false_iff, bne_eq_false_iff_eq] at hd
      rcases hd with hd | hd
      · exact hd
      · exact absurd (hsplit ▸ mem_append_right w (hr ▸ hd ▸ mem_cons_self)) h0
    rw [hr] at hsplit
    rw [← hsplit]
    unfold components List.splitOn
    rw [splitOnP_append_cons_of_forall_mem hfree _ (by simp), splitOnP_cons_eq_if_modifyHead,
      if_pos (by simp)]
    simp [hne]

theorem components_eq_nil (h0 : 0 ∉ path) : components (skipSlashes path) = [] ↔ skipSlashes path = [] := by
  cases hs : skipSlashes path with
  | nil => simp [components, splitOn_nil]
  | cons c s =>
    have h0' : 0 ∉ c :: s := fun hf => h0 ((dropWhile_suffix _).mem (hs ▸ hf))
    rw [(components_cons (skipSlashes_head hs) h0').2]
    simp

/-- **`skipelem`** takes the first component off. -/
theorem skipelem_spec (h0 : 0 ∉ path) (name : NameBuf) :
    match skipelem path name with
    | none => components path = []
    | some (rest, name') => ∃ c, components path = c :: components rest ∧ Spells name' c ∧ 0 ∉ rest ∧
        (components rest = [] ↔ rest = []) ∧ rest.length < path.length := by
  rw [← components_skipSlashes path]
  unfold skipelem
  have hsuffix : skipSlashes path <:+ path := dropWhile_suffix _
  cases hs : skipSlashes path with
  | nil => rfl
  | cons c s =>
    rw [hs] at hsuffix
    have h0s : 0 ∉ c :: s := fun hf => h0 (hsuffix.mem hf)
    obtain ⟨hne, hcomp⟩ := components_cons (skipSlashes_head hs) h0s
    have hrest : 0 ∉ (c :: s).dropWhile isElem := fun hf => h0s ((dropWhile_suffix _).mem hf)
    have hlen : (c :: s).length - ((c :: s).dropWhile isElem).length = ((c :: s).takeWhile isElem).length := by
      conv_lhs => rw [← takeWhile_append_dropWhile (p := isElem) (l := c :: s), length_append]
      simp
    have hget : ∀ i, i < ((c :: s).takeWhile isElem).length →
        ((c :: s).takeWhile isElem)[i]? = some ((c :: s).getD i 0) := by
      intro i hi
      have hpre := takeWhile_prefix isElem (l := c :: s)
      rw [List.getElem?_eq_getElem hi, hpre.getElem hi, getD_eq_getElem?_getD,
        List.getElem?_eq_getElem (lt_of_lt_of_le hi hpre.length_le), Option.getD_some]
    dsimp only
    rw [headD_cons, if_neg (show c ≠ 0 from fun hf => h0s (hf ▸ mem_cons_self)), hlen]
    refine ⟨_, hcomp, ?_, fun hf => hrest ((dropWhile_suffix _).mem hf), components_eq_nil hrest, ?_⟩
    · intro i
      split
      · next hlong =>
          refine ⟨fun hi => ?_, fun hi => absurd i.isLt (by omega)⟩
          rw [hget i hi]
          simp [NameBuf.move]
      · refine ⟨fun hi => ?_, fun hi => if_pos hi⟩
        rw [hget i hi]
        dsimp only
        rw [if_neg hi.ne]
        simp [NameBuf.move, hi]
    · have h₁ := hsuffix.length_le
      have h₂ := (dropWhile_suffix (· == slash) (l := (c :: s).dropWhile isElem)).length_le
      have h₃ := length_pos_iff.mpr hne
      unfold skipSlashes
      omega

/-! ## The loop of `namex` -/

/-- The elements that `namex` finds, with at most `fuel` calls of `skipelem`: the contents of `name`, and the
path that is left, after each of them. None if `skipelem` has not returned 0 by then. -/
def pathElems : Nat → List UInt8 → NameBuf → Option (List (NameBuf × List UInt8))
  | 0, _, _ => none
  | fuel + 1, path, name =>
    match skipelem path name with
    | none => some []
    | some (path, name) => (pathElems fuel path name).map ((name, path) :: ·)

/-- **Path splitting.** The loop of `namex` ends, and finds the components of the path in order; the path
that is left is empty at the last one and at no other. -/
theorem pathElems_components (h0 : 0 ∉ path) (name : NameBuf) : ∃ elems,
    (∀ fuel, path.length < fuel → pathElems fuel path name = some elems) ∧
    List.Forall₂ (fun e c => Spells e.1 c) elems (components path) ∧
    ∀ i e, elems[i]? = some e → (e.2 = [] ↔ i + 1 = elems.length) := by
  induction hn : path.length using Nat.strong_induction_on generalizing path name with
  | _ n ih =>
    subst hn
    have hspec := skipelem_spec h0 name
    cases hskip : skipelem path name with
    | none =>
      rw [hskip] at hspec
      refine ⟨[], fun fuel hf => ?_, by rw [hspec]; exact .nil, fun i e he => by simp at he⟩
      obtain ⟨fuel, rfl⟩ := Nat.exists_eq_succ_of_ne_zero (Nat.ne_zero_of_lt hf)
      rw [pathElems, hskip]
    | some res =>
      obtain ⟨rest, name'⟩ := res
      rw [hskip] at hspec
      obtain ⟨c, hcomp, hspell, h0', hempty, hlt⟩ := hspec
      obtain ⟨elems, hrun, hall, hlast⟩ := ih rest.length hlt h0' name' rfl
      refine ⟨(name', rest) :: elems, fun fuel hf => ?_, by rw [hcomp]; exact .cons hspell hall, ?_⟩
      · obtain ⟨fuel, rfl⟩ := Nat.exists_eq_succ_of_ne_zero (Nat.ne_zero_of_lt hf)
        rw [pathElems, hskip]
        dsimp only
        rw [hrun fuel (by omega)]
        rfl
      · intro i e he
        cases i with
        | zero =>
          obtain rfl : (name', rest) = e := by simpa using he
          rw [← hempty, length_cons, ← length_eq_zero_iff, ← hall.length_eq]
          omega
        | succ i =>
          rw [List.getElem?_cons_succ] at he
          rw [hlast i e he, length_cons]
          omega

/-- The path `//a/bb/`. -/
theorem pathElems_components_two : ∃ elems, pathElems 8 [47, 47, 97, 47, 98, 98, 47] (fun _ => 0) = some elems ∧
    List.Forall₂ (fun e c => Spells e.1 c) elems [[97], [98, 98]] := by
  obtain ⟨elems, hrun, hall, -⟩ := @pathElems_components [47, 47, 97, 47, 98, 98, 47] (by decide) fun _ => 0
  exact ⟨elems, hrun 8 (by decide), hall⟩

end Xv6
