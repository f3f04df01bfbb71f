import Mathlib.Data.List.Chain
import Mathlib.Data.List.Nodup
import Mathlib.Logic.Function.Basic

/-!
# Circular doubly linked lists

A list of nodes threaded through two functions: `next` leads from a node to the one behind it, `prev`
back. A head node, which is no element of the list, closes the circle. Nodes are taken out and put
behind the head by assignments to `next` and `prev` at four places at most; what a loop along `next` or
`prev` finds is what `List.find?` finds in the list or in its reverse.
-/

/-- A change of the relation that only has to hold between neighbours. -/
theorem List.IsChain.imp_inner {α : Type*} {R S : α → α → Prop} {l : List α} (h : l.IsChain R)
    (hRS : ∀ a ∈ l.dropLast, ∀ b ∈ l.tail, R a b → S a b) : l.IsChain S := by
  induction l with
  | nil => exact .nil
  | cons a l ih =>
    cases l with
    | nil => exact .singleton a
    | cons b l =>
      rw [isChain_cons_cons] at h ⊢
      refine ⟨hRS a (by simp) b (by simp) h.1, ih h.2 ?_⟩
      intro x hx y hy
      exact hRS x (by rw [dropLast_cons_cons]; exact mem_cons_of_mem _ hx) y
        (mem_cons_of_mem _ hy)

variable {N : Type*}

/-- From `h` on, `next` runs through `l` and back to `h`, and `prev` the other way round. -/
structure LinkedRing (next prev : N → N) (h : N) (l : List N) : Prop where
  nodup : (h :: l).Nodup
  chain : (h :: l ++ [h]).IsChain fun a b => next a = b ∧ prev b = a

namespace LinkedRing

open Function List

variable {next prev : N → N} {h b : N} {l l₁ l₂ : List N}

theorem empty (hn : next h = h) (hp : prev h = h) : LinkedRing next prev h [] where
  nodup := nodup_singleton h
  chain := isChain_pair.mpr ⟨hn, hp⟩

theorem head_not_mem (hl : LinkedRing next prev h l) : h ∉ l := (nodup_cons.mp hl.nodup).1

/-- The ring runs backwards too. -/
theorem reverse (hl : LinkedRing next prev h l) : LinkedRing prev next h l.reverse where
  nodup := by
    rw [nodup_cons, mem_reverse, nodup_reverse]
    exact nodup_cons.mp hl.nodup
  chain := by
    have heq : h :: l.reverse ++ [h] = (h :: l ++ [h]).reverse := by simp
    rw [heq, isChain_reverse]
    exact hl.chain.imp fun _ _ hab => ⟨hab.2, hab.1⟩

theorem next_ne_self (hl : LinkedRing next prev h (l₁ ++ b :: l₂)) : next b ≠ b := by
  have hchain := hl.chain
  have hall : h :: (l₁ ++ b :: l₂) ++ [h] = (h :: l₁) ++ b :: (l₂ ++ [h]) := by simp
  rw [hall, isChain_split] at hchain
  intro hself
  cases l₂ with
  | nil =>
    have hb := (isChain_pair.mp hchain.2).1
    rw [hself] at hb
    exact hl.head_not_mem (mem_append_right _ (hb ▸ mem_cons_self))
  | cons n l₂ =>
    have hb := (isChain_cons_cons.mp hchain.2).1.1
    rw [hself] at hb
    have hlast := (nodup_append.mp (nodup_cons.mp hl.nodup).2).2.1
    exact (nodup_cons.mp hlast).1 (hb ▸ mem_cons_self)

variable [DecidableEq N]

/-- **Taking a node out**: its neighbours are linked to each other. -/
theorem unlink (hl : LinkedRing next prev h (l₁ ++ b :: l₂)) :
    LinkedRing (update next (prev b) (next b)) (update prev (next b) (prev b)) h
      (l₁ ++ l₂) := by
  -- `p` is the node before `b`, `n` the one behind it
  obtain ⟨A, p, hA⟩ : ∃ A p, h :: l₁ = A ++ [p] :=
    ⟨_, _, (dropLast_append_getLast (cons_ne_nil h l₁)).symm⟩
  obtain ⟨n, B, hB⟩ : ∃ n B, l₂ ++ [h] = n :: B := exists_cons_of_ne_nil (by simp)
  have hall : h :: (l₁ ++ b :: l₂) ++ [h] = A ++ p :: b :: n :: B := by
    have : h :: (l₁ ++ b :: l₂) ++ [h] = (h :: l₁) ++ b :: (l₂ ++ [h]) := by simp
    rw [this, hA, hB]
    simp
  have hchain := hl.chain
  rw [hall, isChain_append_cons_cons, isChain_cons_cons] at hchain
  obtain ⟨hbefore, ⟨-, hp⟩, ⟨hn, -⟩, hbehind⟩ := hchain
  have hnodup : (h :: (l₁ ++ l₂)).Nodup :=
    hl.nodup.sublist (List.Sublist.cons_cons h ((sublist_cons_self b l₂).append_left l₁))
  refine ⟨hnodup, ?_⟩
  rw [hp, hn]
  have hsplit : h :: (l₁ ++ l₂) ++ [h] = (A ++ [p]) ++ (n :: B) := by
    rw [← hA, ← hB]
    simp
  have hfront : (A ++ [p] ++ l₂).Nodup := by
    rw [← hA]
    exact hnodup
  have hback : (l₁ ++ (n :: B)).Nodup := by
    rw [← hB, ← append_assoc, nodup_append_comm]
    exact hnodup
  rw [hsplit]
  refine List.IsChain.append ?_ ?_ ?_
  · refine hbefore.imp_inner ?_
    intro x hx y hy hxy
    rw [dropLast_concat] at hx
    rw [← hA, tail_cons] at hy
    have hxp : x ≠ p := by
      rintro rfl
      exact (nodup_append.mp (nodup_append.mp hfront).1).2.2 x hx x mem_cons_self rfl
    have hyn : y ≠ n := by
      rintro rfl
      exact (nodup_append.mp hback).2.2 y hy y mem_cons_self rfl
    rw [update_of_ne hxp, update_of_ne hyn]
    exact hxy
  · refine hbehind.imp_inner ?_
    intro x hx y hy hxy
    rw [← hB, dropLast_concat] at hx
    rw [tail_cons] at hy
    have hxp : x ≠ p := by
      rintro rfl
      exact (nodup_append.mp hfront).2.2 x (mem_append_right _ mem_cons_self) x hx rfl
    have hyn : y ≠ n := by
      rintro rfl
      exact (nodup_cons.mp (nodup_append.mp hback).2.1).1 hy
    rw [update_of_ne hxp, update_of_ne hyn]
    exact hxy
  · intro x hx y hy
    rw [List.getLast?_concat, Option.mem_some_iff] at hx
    rw [List.head?_cons, Option.mem_some_iff] at hy
    subst hx hy
    exact ⟨update_self .., update_self ..⟩

/-- **Putting a node in** behind the head. -/
theorem push (hl : LinkedRing next prev h l) (hb : b ∉ h :: l) :
    LinkedRing (update (update next b (next h)) h b)
      (update (update prev b h) (next h) b) h (b :: l) := by
  obtain ⟨n, B, hB⟩ : ∃ n B, l ++ [h] = n :: B := exists_cons_of_ne_nil (by simp)
  have hchain := hl.chain
  rw [cons_append, hB, isChain_cons_cons] at hchain
  obtain ⟨⟨hn, -⟩, hbehind⟩ := hchain
  have hbh : b ≠ h := fun he => hb (he ▸ mem_cons_self)
  have hbB : b ∉ n :: B := by
    rw [← hB]
    intro hmem
    rcases mem_append.mp hmem with hmem | hmem
    · exact hb (mem_cons_of_mem _ hmem)
    · exact hbh (mem_singleton.mp hmem)
  have hbn : b ≠ n := fun he => hbB (he ▸ mem_cons_self)
  have hcycle : (n :: B).Nodup := by
    rw [← hB]
    exact nodup_append_comm.mp hl.nodup
  refine ⟨?_, ?_⟩
  · refine nodup_cons.mpr ⟨?_, nodup_cons.mpr ⟨fun hmem => hb (mem_cons_of_mem _ hmem), ?_⟩⟩
    · intro hmem
      rcases mem_cons.mp hmem with he | hmem
      · exact hbh he.symm
      · exact hl.head_not_mem hmem
    · exact (nodup_cons.mp hl.nodup).2
  · rw [hn, cons_append, cons_append, hB, isChain_cons_cons, isChain_cons_cons]
    refine ⟨⟨update_self .., ?_⟩, ⟨?_, update_self ..⟩, hbehind.imp_inner ?_⟩
    · rw [update_of_ne hbn, update_self]
    · rw [update_of_ne hbh, update_self]
    · intro x hx y hy hxy
      rw [← hB, dropLast_concat] at hx
      rw [tail_cons] at hy
      have hxh : x ≠ h := fun he => hl.head_not_mem (he ▸ hx)
      have hxb : x ≠ b := fun he => hb (mem_cons_of_mem _ (he ▸ hx))
      have hyn : y ≠ n := fun he => (nodup_cons.mp hcycle).1 (he ▸ hy)
      have hyb : y ≠ b := fun he => hbB (mem_cons_of_mem _ (he ▸ hy))
      rw [update_of_ne hxh, update_of_ne hxb, update_of_ne hyn,
        update_of_ne hyb]
      exact hxy

/-- A loop along `step` up to the head, for the first node with `p`. The outer `none` says that the
turns did not suffice. -/
def scan (step : N → N) (h : N) (p : N → Bool) : Nat → N → Option (Option N)
  | 0, _ => none
  | fuel + 1, x =>
    if x = h then some none else if p x then some (some x) else scan step h p fuel (step x)

/-- A scan along a chain finds what `find?` does. -/
theorem scan_chain {p : N → Bool} {x : N} {fuel : Nat}
    (hc : (x :: l ++ [h]).IsChain fun a b => next a = b ∧ prev b = a) (hh : h ∉ l)
    (hf : l.length < fuel) : scan next h p fuel (next x) = some (l.find? p) := by
  induction l generalizing x fuel with
  | nil =>
    obtain ⟨f, rfl⟩ := Nat.exists_eq_succ_of_ne_zero (Nat.ne_of_gt hf)
    rw [(isChain_pair.mp hc).1]
    exact if_pos rfl
  | cons a l ih =>
    obtain ⟨f, rfl⟩ := Nat.exists_eq_succ_of_ne_zero (Nat.ne_of_gt (Nat.zero_lt_of_lt hf))
    rw [cons_append, cons_append, isChain_cons_cons] at hc
    have hah : a ≠ h := fun he => hh (he ▸ mem_cons_self)
    rw [hc.1.1, scan, if_neg hah]
    cases hp : p a with
    | true => rw [if_pos rfl, List.find?_cons_of_pos hp]
    | false =>
      rw [if_neg Bool.false_ne_true, List.find?_cons_of_neg (by rw [hp]; exact Bool.false_ne_true)]
      exact ih hc.2 (fun hmem => hh (mem_cons_of_mem _ hmem)) (Nat.lt_of_succ_lt_succ hf)

/-- **A loop over the list** finds what there is to find, in the order of the list. -/
theorem scan_eq (hl : LinkedRing next prev h l) (p : N → Bool) {fuel : Nat} (hf : l.length < fuel) :
    scan next h p fuel (next h) = some (l.find? p) :=
  scan_chain hl.chain hl.head_not_mem hf

end LinkedRing
