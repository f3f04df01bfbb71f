import Mathlib.Data.Finset.Max
import Mathlib.Data.Finset.Card
import Mathlib.Logic.Function.Iterate
import Mathlib.Order.Basic

/-!
# Circular sorted lists

A circular singly linked list whose nodes are kept in order: `next` leads from each node to the next
larger one, and from the largest back to the smallest. The list is given by its set of nodes, so that
linking a node in and taking one out are statements about sets, and no position in the list is special.
-/

variable {α : Type*} [LinearOrder α]

/-- `next` runs through `F` in order, with a single wrap point. -/
structure SortedRing (next : α → α) (F : Finset α) : Prop where
  mem : ∀ p ∈ F, next p ∈ F
  gap : ∀ p ∈ F, ∀ q ∈ F, p < q → next p ≤ q ∨ next p ≤ p
  wrap : ∀ p ∈ F, next p ≤ p → ∀ q ∈ F, next p ≤ q ∧ q ≤ p

namespace SortedRing

open Function Finset

variable {next next' : α → α} {F : Finset α} {p q b : α}

/-- The ring of one node. -/
theorem singleton (h : next p = p) : SortedRing next {p} := by
  refine ⟨?_, ?_, ?_⟩
  · intro q hq
    rw [mem_singleton] at hq ⊢
    rw [hq, h]
  · intro q hq r hr hlt
    rw [mem_singleton] at hq hr
    rw [hq, hr] at hlt
    exact absurd hlt (lt_irrefl _)
  · intro q hq _ r hr
    rw [mem_singleton] at hq hr
    rw [hq, hr, h]
    exact ⟨le_rfl, le_rfl⟩

theorem congr (h : SortedRing next F) (heq : ∀ p ∈ F, next' p = next p) : SortedRing next' F := by
  refine ⟨?_, ?_, ?_⟩
  · intro p hp
    rw [heq p hp]
    exact h.mem p hp
  · intro p hp
    rw [heq p hp]
    exact h.gap p hp
  · intro p hp
    rw [heq p hp]
    exact h.wrap p hp

/-- Where a new node `b` belongs: behind `p`. -/
def Fits (next : α → α) (b p : α) : Prop := (p < b ∧ b < next p) ∨ (next p ≤ p ∧ (p < b ∨ b < next p))

instance (next : α → α) (b p : α) : Decidable (Fits next b p) := inferInstanceAs (Decidable (_ ∨ _))

/-- **Linking in** a node where it belongs. -/
theorem insert (h : SortedRing next F) (hp : p ∈ F) (hb : b ∉ F) (hfits : Fits next b p) :
    SortedRing (update (update next b (next p)) p b) (insert b F) := by
  have hne : p ≠ b := fun he => hb (he ▸ hp)
  have hself : update (update next b (next p)) p b p = b := update_self ..
  have hnew : update (update next b (next p)) p b b = next p := by
    rw [update_of_ne hne.symm, update_self]
  have hold : ∀ x ∈ F, x ≠ p → update (update next b (next p)) p b x = next x := by
    intro x hx hxp
    rw [update_of_ne hxp, update_of_ne (by rintro rfl; exact hb hx)]
  have hgap := h.gap
  have hwrap := h.wrap
  have hmem := h.mem
  refine ⟨?_, ?_, ?_⟩
  · intro x hx
    rcases mem_insert.mp hx with rfl | hx
    · rw [hnew]
      exact mem_insert_of_mem (hmem p hp)
    · by_cases hxp : x = p
      · rw [hxp, hself]
        exact mem_insert_self _ _
      · rw [hold x hx hxp]
        exact mem_insert_of_mem (hmem x hx)
  · intro x hx q hq hlt
    unfold Fits at hfits
    grind
  · intro x hx hle q hq
    unfold Fits at hfits
    grind

/-- Two nodes do not have the same successor. -/
theorem next_inj (h : SortedRing next F) (hp : p ∈ F) (hq : q ∈ F) (heq : next p = next q) : p = q := by
  have hless : ∀ p ∈ F, ∀ q ∈ F, next p = next q → ¬ p < q := by
    intro p hp q hq heq hlt
    have hup : ¬ next p ≤ p := fun hle => not_le.mpr hlt (h.wrap p hp hle q hq).2
    have hle : next q ≤ q := heq ▸ (h.gap p hp q hq hlt).resolve_right hup
    exact hup (heq ▸ (h.wrap q hq hle p hp).1)
  rcases lt_trichotomy p q with hlt | heq' | hlt
  · exact absurd hlt (hless p hp q hq heq)
  · exact heq'
  · exact absurd hlt (hless q hq p hp heq.symm)

/-- **Taking out** the node behind `p`. -/
theorem erase (h : SortedRing next F) (hp : p ∈ F) (hne : next p ≠ p) :
    SortedRing (update next p (next (next p))) (F.erase (next p)) := by
  have hself : update next p (next (next p)) p = next (next p) := update_self ..
  have hold : ∀ x, x ≠ p → update next p (next (next p)) x = next x :=
    fun x hx => update_of_ne hx _ _
  have hgap := h.gap
  have hwrap := h.wrap
  have hmem := h.mem
  have hinj : ∀ x ∈ F, next x = next p → x = p := fun x hx => h.next_inj hx hp
  refine ⟨?_, ?_, ?_⟩
  · intro x hx
    obtain ⟨hxn, hx⟩ := mem_erase.mp hx
    rw [mem_erase]
    by_cases hxp : x = p
    · rw [hxp, hself]
      refine ⟨?_, hmem _ (hmem p hp)⟩
      intro heq
      exact hne (hinj _ (hmem p hp) heq)
    · rw [hold x hxp]
      exact ⟨fun heq => hxp (hinj x hx heq), hmem x hx⟩
  · intro x hx q hq hlt
    grind
  · intro x hx hle q hq
    grind

/-! ## Walking around -/

/-- Going up from `p` one gets to every node above it. -/
theorem reach_up (h : SortedRing next F) (hq : q ∈ F) :
    ∀ n p, p ∈ F → p ≤ q → (F.filter fun x => p < x ∧ x ≤ q).card = n → ∃ k, next^[k] p = q := by
  intro n
  induction n using Nat.strong_induction_on with
  | _ n ih =>
    intro p hp hle hcard
    rcases hle.eq_or_lt with rfl | hlt
    · exact ⟨0, rfl⟩
    · have hup : p < next p := by
        by_contra hnot
        exact absurd (h.wrap p hp (not_lt.mp hnot) q hq).2 (not_le.mpr hlt)
      have hnext : next p ≤ q := (h.gap p hp q hq hlt).resolve_right (not_le.mpr hup)
      obtain ⟨k, hk⟩ := ih _ (by
        rw [← hcard]
        apply card_lt_card
        refine ⟨?_, ?_⟩
        · intro x hx
          rw [mem_filter] at hx ⊢
          exact ⟨hx.1, hup.trans hx.2.1, hx.2.2⟩
        · intro hsub
          have hx := hsub (mem_filter.mpr ⟨h.mem p hp, hup, hnext⟩)
          exact lt_irrefl _ (mem_filter.mp hx).2.1) (next p) (h.mem p hp) hnext rfl
      exact ⟨k + 1, hk⟩

/-- **Every node is reached** from every node. -/
theorem reach (h : SortedRing next F) (hp : p ∈ F) (hq : q ∈ F) : ∃ k, next^[k] p = q := by
  obtain ⟨m, hm, hmax⟩ := F.exists_max_image id ⟨p, hp⟩
  obtain ⟨j, hj⟩ := h.reach_up hm _ p hp (hmax p hp) rfl
  have hmin := h.wrap m hm (hmax _ (h.mem m hm))
  obtain ⟨k, hk⟩ := h.reach_up hq _ (next m) (h.mem m hm) (hmin q hq).1 rfl
  refine ⟨k + (j + 1), ?_⟩
  rw [Function.iterate_add_apply, Function.iterate_succ_apply', hj, hk]

theorem iterate_mem (h : SortedRing next F) (hp : p ∈ F) (k : Nat) : next^[k] p ∈ F := by
  induction k with
  | zero => exact hp
  | succ k ih =>
    rw [Function.iterate_succ_apply']
    exact h.mem _ ih

/-- There is a place for a node that is larger than some other one. -/
theorem exists_fits (h : SortedRing next F) (hb : b ∉ F) (hp : p ∈ F) (hlt : p < b) :
    ∃ q ∈ F, Fits next b q := by
  obtain ⟨m, hm, hmax⟩ := (F.filter (· < b)).exists_max_image id ⟨p, mem_filter.mpr ⟨hp, hlt⟩⟩
  rw [mem_filter] at hm
  refine ⟨m, hm.1, ?_⟩
  by_cases hwrap : next m ≤ m
  · exact .inr ⟨hwrap, .inl hm.2⟩
  · refine .inl ⟨hm.2, ?_⟩
    by_contra hnot
    have hne : next m ≠ b := fun he => hb (he ▸ h.mem m hm.1)
    have hless : next m < b := lt_of_le_of_ne (not_lt.mp hnot) hne
    exact hwrap (hmax _ (mem_filter.mpr ⟨h.mem m hm.1, hless⟩))

end SortedRing

/-- The first node from `p` on at which the loop stops. -/
def walk (next : α → α) (stop : α → Bool) : Nat → α → Option α
  | 0, _ => none
  | n + 1, p => if stop p then some p else walk next stop n (next p)

variable {next : α → α} {stop : α → Bool} {F : Finset α}

/-- **A walk ends** if it stops at some node of the ring, and it ends at such a node. -/
theorem SortedRing.walk_stops (h : SortedRing next F) (stop : α → Bool) {p q : α} (hp : p ∈ F)
    (hq : q ∈ F) (hstop : stop q) : ∃ f, ∃ r ∈ F, stop r ∧ ∀ n, f ≤ n → walk next stop n p = some r := by
  obtain ⟨k, hk⟩ := h.reach hp hq
  induction k generalizing p with
  | zero =>
    rw [← hk] at hstop
    refine ⟨1, p, hp, hstop, fun n hn => ?_⟩
    obtain ⟨n, rfl⟩ := Nat.exists_eq_add_of_le' hn
    exact if_pos hstop
  | succ k ih =>
    by_cases hs : stop p
    · refine ⟨1, p, hp, hs, fun n hn => ?_⟩
      obtain ⟨n, rfl⟩ := Nat.exists_eq_add_of_le' hn
      exact if_pos hs
    · obtain ⟨f, r, hr, hsr, hwalk⟩ := ih (h.mem p hp) hk
      refine ⟨f + 1, r, hr, hsr, fun n hn => ?_⟩
      obtain ⟨n, rfl⟩ := Nat.exists_eq_add_of_le' (show 1 ≤ n by omega)
      rw [walk, if_neg hs]
      exact hwalk n (by omega)

omit [LinearOrder α] in
/-- A walk that ended does not need more steps. -/
theorem walk_mono {n m : Nat} {p r : α} (h : walk next stop n p = some r) (hle : n ≤ m) :
    walk next stop m p = some r := by
  induction n generalizing m p with
  | zero => cases h
  | succ n ih =>
    obtain ⟨m, rfl⟩ := Nat.exists_eq_add_of_le' (show 1 ≤ m by omega)
    unfold walk at h ⊢
    split at h
    · next hs => rw [if_pos hs, h]
    · next hs =>
        rw [if_neg hs]
        exact ih h (by omega)
