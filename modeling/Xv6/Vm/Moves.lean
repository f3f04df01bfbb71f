import Xv6.Lib.Transition
import Xv6.Vm.EvictEffect
import Xv6.Vm.FaultSpec

/-!
# Moves of pages

Whatever the paging code does, from any state, its effect on page tables is a sequence of moves: a page
goes out to swap, comes back, is filled, is cleared, or is released while it is in swap. Between moves
entries lose their reference bits, table pages appear, and nothing else happens to a page. A run of
moves is what the facts about flags, emptiness and the swap counters are read off.
-/

namespace Xv6

open Function

variable {D : Type} {k k' k'' : Kernel D} {r pa va : Nat} {v : Vpn} {e e' : Pte}

open TraceM

/-! ## Entries -/

/-- The page is in memory or in swap. -/
def Present (e : Pte) : Prop := e.getLsbD pteV = true ∨ e.getLsbD pteS = true

/-- The page is in swap. -/
def Away (e : Pte) : Prop := e.getLsbD pteV = false ∧ e.getLsbD pteS = true

instance : DecidablePred Present := fun _ => inferInstanceAs (Decidable (_ ∨ _))

instance : DecidablePred Away := fun _ => inferInstanceAs (Decidable (_ ∧ _))

/-- There is no page. -/
def Tables.Hollow (T : Tables) (r : Nat) (v : Vpn) : Prop := ∀ e, T.entry r v = some e → ¬ Present e

theorem not_present_zero : ¬ Present 0 := by
  rintro (h | h) <;> simp at h

theorem Tables.Empty.hollow {T : Tables} (h : T.Empty r v) : T.Hollow r v := by
  intro e he
  rw [h e he]
  exact not_present_zero

theorem Away.present (h : Away e) : Present e := Or.inr h.2

theorem swapEntry_away (s : Nat) (e : Pte) : Away (swapEntry s e) :=
  ⟨swapEntry_not_valid s e, swapEntry_swapped s e⟩

theorem SameFlags.trans {e'' : Pte} (h : SameFlags e e') (h' : SameFlags e' e'') : SameFlags e e'' :=
  fun n hn hV hS hA => (h' n hn hV hS hA).trans (h n hn hV hS hA)

section WithoutA

variable (h : withoutA e' = withoutA e)

include h

theorem present_of_withoutA : Present e' ↔ Present e := by
  unfold Present
  rw [getLsbD_of_withoutA h (by decide) (by decide), getLsbD_of_withoutA h (by decide) (by decide)]

theorem away_of_withoutA : Away e' ↔ Away e := by
  unfold Away
  rw [getLsbD_of_withoutA h (by decide) (by decide), getLsbD_of_withoutA h (by decide) (by decide)]

theorem sameFlags_of_withoutA : SameFlags e e' :=
  fun n hn _ _ hA => getLsbD_of_withoutA h (by omega) hA

end WithoutA

/-! ## Moves -/

/-- Page `v` of the table `r` goes out as a page of `p`, of which `n` pages went out before; it comes
back to `p`; it is filled; it is cleared; it is released from swap. -/
inductive Move where
  | out (p : ProcId) (r : Nat) (v : Vpn) (n : Int32)
  | back (p : ProcId) (r : Nat) (v : Vpn)
  | fill (r : Nat) (v : Vpn)
  | clear (r : Nat) (v : Vpn)
  | release (r : Nat) (v : Vpn)

namespace Move

def table : Move → Nat
  | out _ r _ _ | back _ r _ | fill r _ | clear r _ | release r _ => r

def page : Move → Vpn
  | out _ _ v _ | back _ _ v | fill _ v | clear _ v | release _ v => v

/-- What a move writes over an entry. -/
inductive Writes : Move → Pte → Pte → Prop
  | out {p : ProcId} {r : Nat} {v : Vpn} {n : Int32} {e : Pte} (s : Nat) (hV : e.getLsbD pteV = true) :
      Writes (.out p r v n) e (swapEntry s e)
  | back {p : ProcId} {r : Nat} {v : Vpn} {e : Pte} (pa : Nat) (ha : Away e) :
      Writes (.back p r v) e (swapInEntry pa e)
  | fill {r : Nat} {v : Vpn} {e e' : Pte} (hh : ¬ Present e) (hV : e'.getLsbD pteV = true) :
      Writes (.fill r v) e e'
  | clear {r : Nat} {v : Vpn} {e : Pte} (ha : ¬ Away e) : Writes (.clear r v) e 0
  | release {r : Nat} {v : Vpn} {e : Pte} (ha : Away e) : Writes (.release r v) e 0

end Move

/-- The page table of a process, its `pages_swapped_in` and its `pages_swapped_out`. -/
structure Swaps where
  pagetable : Nat
  swappedIn : Int32
  swappedOut : Int32

def Proc.swaps (q : Proc) : Swaps := ⟨q.pagetable, q.pagesSwappedIn, q.pagesSwappedOut⟩

def Kernel.swaps (k : Kernel D) (p : ProcId) : Swaps := (k.proc p).swaps

theorem Kernel.swaps_updProc (p : ProcId) (f : Proc → Proc) :
    (k.updProc p f).swaps = update k.swaps p (f (k.proc p)).swaps := by
  funext q
  show (update k.proc p (f (k.proc p)) q).swaps = _
  by_cases hq : q = p
  · rw [hq, update_self, update_self]
  · rw [update_of_ne hq, update_of_ne hq]
    rfl

/-- Other fields of a process do not count. -/
theorem Kernel.swaps_updProc_of_eq {p : ProcId} {f : Proc → Proc} (hf : ∀ q : Proc, (f q).swaps = q.swaps) :
    (k.updProc p f).swaps = k.swaps := by
  rw [Kernel.swaps_updProc, hf]
  exact update_eq_self ..

/-- The processes that a move names have the page table that it names. -/
def Move.Fits (c : ProcId → Swaps) : Move → Prop
  | out p r _ n => (c p).pagetable = r ∧ (c p).swappedOut = n
  | back p r _ => (c p).pagetable = r
  | _ => True

/-- The counters after a move. -/
def Move.charge (c : ProcId → Swaps) : Move → ProcId → Swaps
  | out p _ _ _ => update c p { c p with swappedOut := (c p).swappedOut + 1 }
  | back p _ _ => update c p { c p with swappedIn := (c p).swappedIn + 1 }
  | _ => c

theorem Move.charge_pagetable (c : ProcId → Swaps) (m : Move) (p : ProcId) :
    (m.charge c p).pagetable = (c p).pagetable := by
  have hupd : ∀ {q : ProcId} {x : Swaps}, x.pagetable = (c q).pagetable →
      (update c q x p).pagetable = (c p).pagetable := by
    intro q x hx
    by_cases hq : p = q
    · rw [hq, update_self, hx]
    · rw [update_of_ne hq]
  cases m with
  | out q r v n => exact hupd rfl
  | back q r v => exact hupd rfl
  | fill => rfl
  | clear => rfl
  | release => rfl

/-- No page moves. -/
structure Still (k k' : Kernel D) : Prop where
  present : ∀ {r v e}, k.tables.entry r v = some e → Present e →
    ∃ e', k'.tables.entry r v = some e' ∧ withoutA e' = withoutA e
  hollow : ∀ {r v}, k.tables.Hollow r v → k'.tables.Hollow r v
  swaps : k'.swaps = k.swaps

/-- One move, or none. -/
inductive MoveStep : Kernel D → Option Move → Kernel D → Prop
  | still {k k' : Kernel D} (h : Still k k') : MoveStep k none k'
  | move {k k' : Kernel D} {m : Move} {e e' : Pte} (hfits : m.Fits k.swaps)
      (he : k.tables.entry m.table m.page = some e) (hw : m.Writes e e')
      (htab : k'.tables = k.tables.setEntry m.table m.page e') (hswaps : k'.swaps = m.charge k.swaps) :
      MoveStep k (some m) k'

/-- From `k` to `k'` by moves in `S`. -/
def Moves (S : Move → Prop) (k k' : Kernel D) : Prop :=
  ∃ ms, Transition.Run MoveStep k ms k' ∧ ∀ m, some m ∈ ms → S m

namespace Moves

variable {S S' : Move → Prop}

theorem of_still (h : Still k k') : Moves S k k' :=
  ⟨[none], .single (.still h), by simp⟩

theorem refl : Moves S k k := ⟨[], .nil, by simp⟩

theorem of_move {m : Move} (h : MoveStep k (some m) k') (hm : S m) : Moves S k k' := by
  refine ⟨[some m], .single h, ?_⟩
  intro m' hm'
  cases List.mem_singleton.mp hm'
  exact hm

theorem trans (h : Moves S k k') (h' : Moves S k' k'') : Moves S k k'' := by
  obtain ⟨ms, hrun, hS⟩ := h
  obtain ⟨ms', hrun', hS'⟩ := h'
  refine ⟨ms ++ ms', hrun.append hrun', ?_⟩
  intro m hm
  rcases List.mem_append.mp hm with hm | hm
  · exact hS m hm
  · exact hS' m hm

theorem mono (h : Moves S k k') (hSS : ∀ m, S m → S' m) : Moves S' k k' := by
  obtain ⟨ms, hrun, hS⟩ := h
  exact ⟨ms, hrun, fun m hm => hSS m (hS m hm)⟩

/-- **Induction over the moves**: what each of them preserves, all of them preserve. -/
theorem invariant {I : Kernel D → Prop} (h : Moves S k k') (h₀ : I k)
    (hstill : ∀ k k', I k → Still k k' → I k')
    (hmove : ∀ k m k', I k → S m → MoveStep k (some m) k' → I k') : I k' := by
  obtain ⟨ms, hrun, hS⟩ := h
  induction hrun with
  | nil => exact h₀
  | @snoc ms k₁ k₂ a _ hs ih =>
    have hI := ih fun m hm => hS m (List.mem_append_left _ hm)
    cases a with
    | none =>
      cases hs with
      | still h => exact hstill _ _ hI h
    | some m => exact hmove _ m _ hI (hS m (by simp)) hs

end Moves

theorem Still.of_entries (hent : ∀ r v, k'.tables.entry r v = k.tables.entry r v)
    (hswaps : k'.swaps = k.swaps) : Still k k' where
  present he _ := ⟨_, (hent _ _).trans he, rfl⟩
  hollow hh e he := hh e ((hent _ _).symm.trans he)
  swaps := hswaps

theorem Still.of_tables (htab : k'.tables = k.tables) (hswaps : k'.swaps = k.swaps) : Still k k' :=
  .of_entries (fun _ _ => by rw [htab]) hswaps

/-- A reference bit that is cleared moves no page. -/
theorem Still.of_sameButA (h : SameButA k.tables k'.tables) (hswaps : k'.swaps = k.swaps) :
    Still k k' := by
  refine ⟨?_, ?_, hswaps⟩
  · intro r v e he _
    have heq := h.entry r v
    rw [he, Option.map_some, Option.map_eq_some_iff] at heq
    exact heq
  · intro r v hh e' he' hp
    have heq := h.entry r v
    rw [he', Option.map_some, eq_comm, Option.map_eq_some_iff] at heq
    obtain ⟨e, he, hA⟩ := heq
    exact hh e he ((present_of_withoutA hA).mpr hp)

/-! ## What moves preserve -/

section Preserve

variable {S : Move → Prop}

/-- A page that is not there is not there after moves that do not fill it. -/
theorem Moves.hollow (h : Moves S k k') (hS : ¬ S (.fill r v)) (hh : k.tables.Hollow r v) :
    k'.tables.Hollow r v := by
  refine h.invariant (I := fun k => k.tables.Hollow r v) hh (fun _ _ hI hs => hs.hollow hI) ?_
  intro k m k' hI hm hs
  cases hs with
  | @move _ _ e e' _ he hw htab _ =>
    intro e₁ he₁ hp
    rw [htab, Tables.entry_setEntry] at he₁
    split at he₁
    · next heq =>
        obtain ⟨rfl, rfl⟩ := heq
        rw [he] at he₁
        cases he₁
        cases hw with
        | out s hV => exact hI e he (Or.inl hV)
        | back pa ha => exact hI e he ha.present
        | fill _ _ => exact hS hm
        | clear _ => exact not_present_zero hp
        | release _ => exact not_present_zero hp
    · exact hI e₁ he₁ hp

/-- A page that is there is there after moves that do not take it away, with the same permissions. -/
theorem Moves.present (h : Moves S k k') (hc : ¬ S (.clear r v)) (hr : ¬ S (.release r v))
    (he : k.tables.entry r v = some e) (hp : Present e) :
    ∃ e', k'.tables.entry r v = some e' ∧ Present e' ∧ SameFlags e e' := by
  refine h.invariant (I := fun k => ∃ e', k.tables.entry r v = some e' ∧ Present e' ∧ SameFlags e e')
    ⟨e, he, hp, fun _ _ _ _ _ => rfl⟩ ?_ ?_
  · rintro k k' ⟨e₁, he₁, hp₁, hf₁⟩ hs
    obtain ⟨e₂, he₂, hA⟩ := hs.present he₁ hp₁
    exact ⟨e₂, he₂, (present_of_withoutA hA).mpr hp₁, hf₁.trans (sameFlags_of_withoutA hA)⟩
  · rintro k m k' ⟨e₁, he₁, hp₁, hf₁⟩ hm hs
    cases hs with
    | @move _ _ e₂ e' _ he₂ hw htab _ =>
      rw [htab, Tables.entry_setEntry]
      split
      · next heq =>
          obtain ⟨rfl, rfl⟩ := heq
          rw [he₁] at he₂ ⊢
          cases he₂
          refine ⟨e', rfl, ?_⟩
          cases hw with
          | out s _ =>
            refine ⟨(swapEntry_away s e₁).present, hf₁.trans ?_⟩
            exact fun n hn hV hS _ => swapEntry_flag s e₁ hn hV hS
          | back pa _ =>
            refine ⟨Or.inl (swapInEntry_valid pa e₁), hf₁.trans ?_⟩
            exact fun n hn hV hS _ => swapInEntry_flag pa e₁ hn hV hS
          | fill hh _ => exact absurd hp₁ hh
          | clear _ => exact absurd hm hc
          | release _ => exact absurd hm hr
      · exact ⟨e₁, he₁, hp₁, hf₁⟩

/-- A page in swap is in swap until it is brought back or released. -/
theorem Moves.away (h : Moves S k k') (hb : ∀ p, ¬ S (.back p r v)) (hr : ¬ S (.release r v))
    (he : k.tables.entry r v = some e) (ha : Away e) :
    ∃ e', k'.tables.entry r v = some e' ∧ Away e' := by
  refine h.invariant (I := fun k => ∃ e', k.tables.entry r v = some e' ∧ Away e') ⟨e, he, ha⟩ ?_ ?_
  · rintro k k' ⟨e₁, he₁, ha₁⟩ hs
    obtain ⟨e₂, he₂, hA⟩ := hs.present he₁ ha₁.present
    exact ⟨e₂, he₂, (away_of_withoutA hA).mpr ha₁⟩
  · rintro k m k' ⟨e₁, he₁, ha₁⟩ hm hs
    cases hs with
    | @move _ _ e₂ e' _ he₂ hw htab _ =>
      rw [htab, Tables.entry_setEntry]
      split
      · next heq =>
          obtain ⟨rfl, rfl⟩ := heq
          rw [he₁] at he₂
          cases he₂
          cases hw with
          | out s hV =>
            rw [ha₁.1] at hV
            cases hV
          | back pa _ => exact absurd hm (hb _)
          | fill hh _ => exact absurd ha₁.present hh
          | clear hn => exact absurd ha₁ hn
          | release _ => exact absurd hm hr
      · exact ⟨e₁, he₁, ha₁⟩

theorem Moves.pagetable (h : Moves S k k') (p : ProcId) : (k'.proc p).pagetable = (k.proc p).pagetable := by
  refine h.invariant (I := fun k' => (k'.swaps p).pagetable = (k.proc p).pagetable) rfl ?_ ?_
  · intro k₁ k₂ hI hs
    rw [hs.swaps]
    exact hI
  · intro k₁ m k₂ hI _ hs
    cases hs with
    | move _ _ _ _ hswaps =>
      rw [hswaps, Move.charge_pagetable]
      exact hI

end Preserve

end Xv6
