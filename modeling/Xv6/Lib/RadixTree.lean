import Mathlib.Logic.Function.Basic
import Mathlib.Order.Nat

/-!
# Radix trees in memory

A radix tree of fixed height is kept in pages: a page holds an entry for each index, and an entry may
name the page below. A node of the tree is a *path*, the indices from the root with the last one in
front. The memory is a function from addresses to words, so nothing in it says that the pages are
those of a tree: that is the predicate `IsTree`, no page is reached by two paths.

The two changes an insertion makes are `Linked`, an empty page is hung under an entry that named
none, and `Overwrites`, an entry of a page at the bottom is written. Under `IsTree` both change what
a path reaches at one path only, and both keep `IsTree`.
-/

/-- How pages lie in memory: where the entries of a page are, and which page a word names. -/
structure RadixLayout (A P I W : Type) where
  /-- The address of an entry. -/
  slot : P → I → A
  /-- The page an interior entry names. -/
  next : W → Option P
  /-- What can be a page at all. -/
  IsPage : P → Prop
  slot_injective : ∀ {p p' : P} {i i' : I}, IsPage p → IsPage p' →
    slot p i = slot p' i' → p = p' ∧ i = i'
  isPage_of_next : ∀ {e : W} {p : P}, next e = some p → IsPage p

namespace RadixLayout

variable {A P I W : Type} (L : RadixLayout A P I W) {w w' : A → W} {root : P} {h : Nat}

/-- The page a path reaches. -/
def page (w : A → W) (root : P) : List I → Option P
  | [] => some root
  | i :: n => (page w root n).bind fun p => L.next (w (L.slot p i))

/-- The word a path and a last index reach. -/
def lookup (w : A → W) (root : P) (n : List I) (i : I) : Option W :=
  (L.page w root n).map fun p => w (L.slot p i)

/-- The pages within height `h` of the root form a tree. -/
structure IsTree (w : A → W) (root : P) (h : Nat) : Prop where
  isPage_root : L.IsPage root
  distinct : ∀ {n n' : List I} {p : P}, n.length ≤ h → n'.length ≤ h →
    L.page w root n = some p → L.page w root n' = some p → n = n'

/-- `p` is not a page of the tree. -/
def Unreached (w : A → W) (root : P) (h : Nat) (p : P) : Prop :=
  ∀ n : List I, n.length ≤ h → L.page w root n ≠ some p

/-- From `w` to `w'` the empty page `p` was hung under entry `i` of `q`. -/
structure Linked (w w' : A → W) (q : P) (i : I) (p : P) : Prop where
  entry : L.next (w' (L.slot q i)) = some p
  empty : ∀ j, L.next (w' (L.slot p j)) = none
  frame : ∀ r j, L.IsPage r → r ≠ p → ¬ (r = q ∧ j = i) → w' (L.slot r j) = w (L.slot r j)

/-- From `w` to `w'` at most entry `i` of `q` was written. -/
def Overwrites (w w' : A → W) (q : P) (i : I) : Prop :=
  ∀ r j, L.IsPage r → ¬ (r = q ∧ j = i) → w' (L.slot r j) = w (L.slot r j)

variable {L}

theorem isPage_of_page (hroot : L.IsPage root) {n : List I} {p : P}
    (hp : L.page w root n = some p) : L.IsPage p := by
  cases n with
  | nil =>
    cases hp
    exact hroot
  | cons i n =>
    obtain ⟨q, -, hq⟩ := Option.bind_eq_some_iff.mp hp
    exact L.isPage_of_next hq

/-! ## Hanging a page -/

section Link

variable {q p : P} {i : I} {n : List I}

/-- **Linking.** The new page is reached by its own path, and every other path reaches what it did. -/
theorem page_link [DecidableEq I] (ht : L.IsTree w root h) (hn : n.length < h)
    (hq : L.page w root n = some q) (hnone : L.next (w (L.slot q i)) = none)
    (hfresh : L.Unreached w root h p) (hl : L.Linked w w' q i p) :
    ∀ m : List I, m.length ≤ h →
      L.page w' root m = if m = i :: n then some p else L.page w root m := by
  have hold : L.page w root (i :: n) = none := by
    show (L.page w root n).bind _ = none
    rw [hq]
    exact hnone
  intro m
  induction m with
  | nil =>
    intro _
    rfl
  | cons j m ih =>
    intro hlen
    have hm : m.length ≤ h := Nat.le_of_succ_le hlen
    have hunfold : L.page w' root (j :: m) =
        (L.page w' root m).bind fun r => L.next (w' (L.slot r j)) := rfl
    rw [hunfold, ih hm]
    by_cases hnew : m = i :: n
    · -- below the new page there is nothing yet, and there was nothing before
      have hne : j :: m ≠ i :: n := by
        intro heq
        have := congrArg List.length heq
        rw [hnew] at this
        simp at this
      rw [if_pos hnew, if_neg hne]
      show L.next (w' (L.slot p j)) = _
      rw [hl.empty j, hnew]
      show none = (L.page w root (i :: n)).bind _
      rw [hold]
      rfl
    · rw [if_neg hnew]
      cases hr : L.page w root m with
      | none =>
        have hne : j :: m ≠ i :: n := by
          intro heq
          rw [(List.cons.inj heq).2, hq] at hr
          cases hr
        rw [if_neg hne]
        show none = (L.page w root m).bind _
        rw [hr]
        rfl
      | some r =>
        show L.next (w' (L.slot r j)) = _
        by_cases hhere : r = q ∧ j = i
        · obtain ⟨rfl, rfl⟩ := hhere
          have hmn : m = n := ht.distinct hm hn.le hr hq
          rw [if_pos (by rw [hmn]), hl.entry]
        · have hne : j :: m ≠ i :: n := by
            intro heq
            obtain ⟨hj, hmn⟩ := List.cons.inj heq
            rw [hmn, hq] at hr
            exact hhere ⟨(Option.some.inj hr).symm, hj⟩
          have hrp : r ≠ p := fun he => hfresh m hm (he ▸ hr)
          rw [if_neg hne, hl.frame r j (isPage_of_page ht.isPage_root hr) hrp hhere]
          show _ = (L.page w root m).bind _
          rw [hr]
          rfl

/-- A fresh page in an empty slot makes a tree. -/
theorem IsTree.link [DecidableEq I] (ht : L.IsTree w root h) (hn : n.length < h)
    (hq : L.page w root n = some q) (hnone : L.next (w (L.slot q i)) = none)
    (hfresh : L.Unreached w root h p) (hl : L.Linked w w' q i p) : L.IsTree w' root h := by
  have hpage := page_link ht hn hq hnone hfresh hl
  refine ⟨ht.isPage_root, ?_⟩
  intro m m' r hm hm' hr hr'
  rw [hpage m hm] at hr
  rw [hpage m' hm'] at hr'
  split at hr
  · next hnew =>
      cases hr
      split at hr'
      · next hnew' => rw [hnew, hnew']
      · exact absurd hr' (hfresh m' hm')
  · split at hr'
    · cases hr'
      exact absurd hr (hfresh m hm)
    · exact ht.distinct hm hm' hr hr'

/-- A page that was in nobody's tree is still not in this one, unless it is the page hung. -/
theorem Unreached.link [DecidableEq I] {r : P} (hr : L.Unreached w root h r) (hne : r ≠ p)
    (ht : L.IsTree w root h) (hn : n.length < h)
    (hq : L.page w root n = some q) (hnone : L.next (w (L.slot q i)) = none)
    (hfresh : L.Unreached w root h p) (hl : L.Linked w w' q i p) : L.Unreached w' root h r := by
  intro m hm hmr
  rw [page_link ht hn hq hnone hfresh hl m hm] at hmr
  split at hmr
  · exact hne (Option.some.inj hmr).symm
  · exact hr m hm hmr

/-- What linking does to the words at the bottom: those of the new page appear, all others stay. -/
theorem lookup_link [DecidableEq I] (ht : L.IsTree w root h) (hn : n.length < h)
    (hq : L.page w root n = some q) (hnone : L.next (w (L.slot q i)) = none)
    (hfresh : L.Unreached w root h p) (hl : L.Linked w w' q i p) {m : List I}
    (hm : m.length = h) (j : I) :
    L.lookup w' root m j =
      if m = i :: n then some (w' (L.slot p j)) else L.lookup w root m j := by
  unfold lookup
  rw [page_link ht hn hq hnone hfresh hl m hm.le]
  split
  · rfl
  · cases hr : L.page w root m with
    | none => rfl
    | some r =>
      have hrp : r ≠ p := fun he => hfresh m hm.le (he ▸ hr)
      have hrq : ¬ (r = q ∧ j = i) := by
        rintro ⟨rfl, -⟩
        have := ht.distinct hm.le hn.le hr hq
        rw [this] at hm
        omega
      show some (w' (L.slot r j)) = some (w (L.slot r j))
      rw [hl.frame r j (isPage_of_page ht.isPage_root hr) hrp hrq]

end Link

/-! ## Writing an entry at the bottom -/

section Overwrite

variable {q : P} {i : I} {n : List I}

theorem Overwrites.update [DecidableEq A] (w : A → W) (hq : L.IsPage q) (i : I) (e : W) :
    L.Overwrites w (Function.update w (L.slot q i) e) q i := by
  intro r j hr hne
  exact Function.update_of_ne (fun heq => hne (L.slot_injective hr hq heq)) _ _

/-- **Writing.** An entry at the bottom names no page of the tree, so no path changes. -/
theorem page_overwrite (ht : L.IsTree w root h) (hn : n.length = h)
    (hq : L.page w root n = some q) (ho : L.Overwrites w w' q i) :
    ∀ m : List I, m.length ≤ h → L.page w' root m = L.page w root m := by
  intro m
  induction m with
  | nil =>
    intro _
    rfl
  | cons j m ih =>
    intro hlen
    have hm : m.length < h := hlen
    show (L.page w' root m).bind _ = (L.page w root m).bind _
    rw [ih hm.le]
    cases hr : L.page w root m with
    | none => rfl
    | some r =>
      have hrq : ¬ (r = q ∧ j = i) := by
        rintro ⟨rfl, -⟩
        have := ht.distinct hm.le hn.le hr hq
        rw [this] at hm
        omega
      show L.next (w' (L.slot r j)) = L.next (w (L.slot r j))
      rw [ho r j (isPage_of_page ht.isPage_root hr) hrq]

/-- Any write to a lowest page leaves a tree. -/
theorem IsTree.overwrite (ht : L.IsTree w root h) (hn : n.length = h)
    (hq : L.page w root n = some q) (ho : L.Overwrites w w' q i) : L.IsTree w' root h := by
  have hpage := page_overwrite ht hn hq ho
  refine ⟨ht.isPage_root, ?_⟩
  intro m m' r hm hm' hr hr'
  rw [hpage m hm] at hr
  rw [hpage m' hm'] at hr'
  exact ht.distinct hm hm' hr hr'

theorem Unreached.overwrite {r : P} (hr : L.Unreached w root h r) (ht : L.IsTree w root h)
    (hn : n.length = h) (hq : L.page w root n = some q) (ho : L.Overwrites w w' q i) :
    L.Unreached w' root h r := by
  intro m hm hmr
  rw [page_overwrite ht hn hq ho m hm] at hmr
  exact hr m hm hmr

/-- The entry written is read at its own path and index, and every other one as before. -/
theorem lookup_overwrite [DecidableEq I] (ht : L.IsTree w root h) (hn : n.length = h)
    (hq : L.page w root n = some q) (ho : L.Overwrites w w' q i) {m : List I}
    (hm : m.length = h) (j : I) :
    L.lookup w' root m j =
      if m = n ∧ j = i then some (w' (L.slot q i)) else L.lookup w root m j := by
  unfold lookup
  rw [page_overwrite ht hn hq ho m hm.le]
  split
  · next hhere =>
      obtain ⟨rfl, rfl⟩ := hhere
      rw [hq]
      rfl
  · next hne =>
      cases hr : L.page w root m with
      | none => rfl
      | some r =>
        have hrq : ¬ (r = q ∧ j = i) := by
          rintro ⟨rfl, rfl⟩
          exact hne ⟨ht.distinct hm.le hn.le hr hq, rfl⟩
        show some (w' (L.slot r j)) = some (w (L.slot r j))
        rw [ho r j (isPage_of_page ht.isPage_root hr) hrq]

end Overwrite

end RadixLayout
