import Xv6.Vm.EvictSpec
import Xv6.Vm.Victim

/-!
# What an eviction changes

The effect of `clock_evict` on any kernel state, consistent or not. When it returns `0`, the entry it
had hidden is shown again and nothing happened but the turns of the clock: some reference bits are
clear and the hand has moved. When it returns a frame, one entry of the frame table is given up, one
page-table entry names a swap slot now, and that slot is in use.

The two cases are told apart by the address in the frame table, which therefore must not be null. An
entry is a candidate when it has a process, whatever `used` says.
-/

namespace Xv6

open Function

variable {D : Type} {k k' : Kernel D}

open TraceM

/-! ## Reference bits -/

/-- An entry without its reference bit. -/
def withoutA (e : Pte) : Pte := e &&& ~~~ bit pteA

theorem withoutA_idem (e : Pte) : withoutA (withoutA e) = withoutA e := by
  unfold withoutA
  rw [BitVec.and_assoc, BitVec.and_self]

theorem getLsbD_withoutA (e : Pte) {n : Nat} (hn : n < 64) (h : n ≠ pteA) :
    (withoutA e).getLsbD n = e.getLsbD n := by
  have hne : ¬ pteA = n := fun h' => h h'.symm
  simp [withoutA, getLsbD_and_not_bit hn, hne]

theorem getLsbD_of_withoutA {e e' : Pte} (h : withoutA e' = withoutA e) {n : Nat} (hn : n < 64) (hA : n ≠ pteA) :
    e'.getLsbD n = e.getLsbD n := by
  rw [← getLsbD_withoutA e hn hA, ← h, getLsbD_withoutA e' hn hA]

/-- Page tables that differ in reference bits only. -/
structure SameButA (T T' : Tables) : Prop where
  shape : T.SameShape T'
  entry : ∀ r v, (T'.entry r v).map withoutA = (T.entry r v).map withoutA

namespace SameButA

variable {T T' T'' : Tables}

theorem refl : SameButA T T := ⟨.refl, fun _ _ => rfl⟩

theorem trans (h : SameButA T T') (h' : SameButA T' T'') : SameButA T T'' :=
  ⟨h.shape.trans h'.shape, fun r v => (h'.entry r v).trans (h.entry r v)⟩

theorem clearA {r : Nat} {v : Vpn} {e : Pte} (he : T.entry r v = some e) :
    SameButA T (T.setEntry r v (e &&& ~~~ bit pteA)) := by
  refine ⟨.setEntry _ _ _, ?_⟩
  intro r' w
  rw [Tables.entry_setEntry]
  split
  · next heq =>
      obtain ⟨rfl, rfl⟩ := heq
      rw [he]
      exact congrArg some (withoutA_idem e)
  · rfl

end SameButA

/-! ## The clock, from any state -/

variable {W : Watch Panic (Eviction D)}

/-- Turns of the clock clear reference bits and move the hand. -/
def Turned (k k' : Kernel D) : Prop :=
  ∃ T hand, k' = k.setClock T hand ∧ SameButA k.tables T

theorem Turned.refl : Turned k k := ⟨k.tables, k.clockHand, rfl, .refl⟩

theorem Turned.trans {k'' : Kernel D} (h : Turned k k') (h' : Turned k' k'') : Turned k k'' := by
  obtain ⟨T, hand, rfl, hT⟩ := h
  obtain ⟨T', hand', rfl, hT'⟩ := h'
  exact ⟨T', hand', rfl, hT.trans hT'⟩

theorem Turned.frametable (h : Turned k k') : k'.frametable = k.frametable := by
  obtain ⟨T, hand, rfl, -⟩ := h
  rfl

theorem Turned.sweeps (hW : W.Lax) : Sweeps W k (Turned k) :=
  ⟨.refl, fun h => h.frametable, fun _ _ => ⟨.inr (hW.allowed _), .inr (hW.allowed _)⟩,
    fun h => h.trans ⟨_, _, rfl, .refl⟩, fun h _ he _ => h.trans ⟨_, _, rfl, .clearA he⟩⟩

/-! ## The eviction -/

variable [SwapStore D]

/-- `swapout` panics, or does what its specification says. -/
theorem swapout_result (hW : W.Lax) (me : ProcId) (pt va : Nat) :
    Sat W (swapout me pt va) (SwapoutResult me pt va k) k := by
  have hwalk : ∀ e, walk pt va k = .error e → Sat W (swapout me pt va) (SwapoutResult me pt va k) k := by
    intro e hw
    unfold swapout
    exact Sat.of_error (bind_of_error hw) (hW.allowed e)
  by_cases hva : va < maxva
  · cases ht : k.tables pt with
    | none => exact hwalk _ (walk_missing hva ht)
    | some t => exact swapout_spec (fun _ => hW.allowed _) me hva ht
  · refine hwalk .walk ?_
    unfold walk
    rw [if_pos (Nat.not_lt.mp hva)]
    rfl

/-- `swapout` of a mapped page while there is a free slot does what the device does with the page. -/
theorem swapout_eq {me : ProcId} {pt va : Nat} {t : PageTable} {e : Pte} {s : Fin maxSwap}
    (hva : va < maxva) (ht : k.tables pt = some t) (he : k.tables.entry pt (vpn va) = some e)
    (hV : e.getLsbD pteV = true) (hs : (k.swaptable s).used = false)
    (hlow : ∀ t < s, (k.swaptable t).used = true) :
    swapout me pt va k = match SwapStore.swapOutPage (k.caller me) (k.mem (pte2pa e)) s k.disk with
      | .error err => .error (.disk err)
      | .ok (_, d) => .ok (some s, ((k.setSlot s ⟨true, pt, va, SwapStore.raidMode k.disk⟩).setDisk
          (SwapStore.noteWrite me d)).setEntry pt (vpn va) (swapEntry s e), []) := by
  have hslot : k.takeSlot pt va = some (s, k.setSlot s ⟨true, pt, va, SwapStore.raidMode k.disk⟩) := by
    unfold Kernel.takeSlot
    rw [firstIdx_eq_some_of (i := s) (by simp [hs]) (fun t hlt => by simp [hlow t hlt])]
    rfl
  have hderef : ∀ k₁ : Kernel D, k₁.tables = k.tables → deref ⟨pt, vpn va⟩ k₁ = .ok (e, k₁, []) := by
    intro k₁ htab
    exact deref_run (by rw [htab]; exact he)
  unfold swapout
  rw [bind_of_ok (walk_run hva ht), he]
  dsimp only [Option.map_some]
  rw [bind_of_ok (hderef k rfl), if_neg (by simp [hV]), get_bind_apply, hslot]
  dsimp only
  rw [bind_of_ok (show (set _ : KM D PUnit) k = .ok (PUnit.unit, _, []) from rfl)]
  cases hout : SwapStore.swapOutPage (k.caller me) (k.mem (pte2pa e)) s k.disk with
  | error err => exact bind_of_error (onDisk_panic (k := k.setSlot s _) hout)
  | ok res =>
    obtain ⟨⟨⟩, d⟩ := res
    rw [bind_of_ok (onDisk_run (k := k.setSlot s _) hout), modify_bind_apply]
    exact bind_run (hderef (((k.setSlot s ⟨true, pt, va, SwapStore.raidMode k.disk⟩).setDisk
      d).setDisk (SwapStore.noteWrite me d)) rfl) rfl

/-- **What `clock_evict` can do.** -/
inductive EvictResult (me : ProcId) (k : Kernel D) : Nat → Kernel D → Prop
  /-- There was no victim, or its page could not go out. -/
  | failed {k₁ : Kernel D} (h : Turned k k₁) : EvictResult me k 0 k₁
  /-- The page of the victim went to the lowest free slot. -/
  | out {k₁ : Kernel D} {vic : Victim} {s : Fin maxSwap} {e : Pte} {d : D} (h : Turned k k₁)
      (hp : (k.frametable vic.idx).proc = some vic.proc) (hva : (k.frametable vic.idx).va = vic.va)
      (he : k₁.tables.entry (k.proc vic.proc).pagetable (vpn vic.va) = some e)
      (hV : e.getLsbD pteV = true) (hs : (k.swaptable s).used = false)
      (hlow : ∀ t < s, (k.swaptable t).used = true)
      (hout : SwapStore.swapOutPage (k.caller me) (k.mem (pte2pa e)) s k.disk = .ok ((), d)) :
      EvictResult me k (k.frametable vic.idx).pa
        (k₁.evicted vic (k.proc vic.proc).pagetable s
          ⟨true, (k.proc vic.proc).pagetable, vic.va, SwapStore.raidMode k.disk⟩
          (SwapStore.noteWrite me d) e)

/-- Every process that has more pages in swap now was the victim of an eviction from `k`. -/
def Charged (W : Watch Panic (Eviction D)) (k k' : Kernel D) : Prop :=
  ∀ p, (k'.proc p).pagesSwappedOut ≠ (k.proc p).pagesSwappedOut →
    ∃ w : Eviction D, W.fine w ∧ w.before = k ∧ (k.frametable w.entry).proc = some p

/-- What **`clock_evict`** does when it returns. -/
theorem clockEvict_result (hW : W.Lax) (me : ProcId) : Sat W (clockEvict me)
    (fun pa k' => k.framelock = false ∧ EvictResult me k pa k' ∧ Charged W k k') k := by
  cases hlock : k.framelock with
  | true =>
    refine Sat.of_error (e := .acquire) ?_ (hW.allowed _)
    unfold clockEvict clockSelect
    rw [get_bind_apply]
    exact bind_of_error (bind_of_error (acquireFramelock_panic hlock))
  | false =>
    unfold clockEvict
    apply Sat.seq_get
    apply Sat.seq
    apply (clockSelect_sat hlock (Turned.sweeps hW)).mono
    rintro res k₁' ⟨k₁, hturn, hres⟩
    cases res with
    | none =>
      subst hres
      refine Sat.ret ⟨rfl, .failed hturn, ?_⟩
      obtain ⟨T, hand, rfl, -⟩ := hturn
      exact fun p hne => absurd rfl hne
    | some vic =>
      obtain ⟨hp, hva, rfl⟩ := hres
      obtain ⟨T, hand, rfl, hT⟩ := hturn
      apply Sat.seq_get
      apply Sat.seq
      refine Sat.mono (swapout_result hW me _ _) ?_
      rintro res k₂ hres
      cases res with
      | none =>
        obtain ⟨rfl, -⟩ := hres
        refine Sat.seq_run (acquireFramelock_run (by exact hlock)) ?_
        apply Sat.seq_update
        refine Sat.seq_run (releaseFramelock_run rfl) ?_
        rw [Kernel.unhide_hide (k := k.setClock T hand) hp]
        refine Sat.ret ⟨rfl, .failed ⟨T, vic.idx + 1, ?_, hT⟩, fun p hne => absurd rfl hne⟩
        rw [← hlock]
        rfl
      | some s =>
        obtain ⟨e, d, he, hV, hs, hlow, hout, rfl⟩ := hres
        refine Sat.seq_run (acquireFramelock_run (by exact hlock)) ?_
        apply Sat.seq_update
        refine Sat.seq_run (releaseFramelock_run rfl) ?_
        rw [Kernel.evicted_eq (k := k.setClock T hand)]
        apply Sat.seq_get
        rcases hW.sorted _ with hfine | hbroken
        · refine Sat.seq_emit_fine hfine ?_
          rw [Kernel.evicted_frame]
          refine Sat.ret ⟨rfl, .out ⟨T, hand, rfl, hT⟩ hp hva he hV hs hlow hout, ?_⟩
          intro p hne
          refine ⟨_, hfine, rfl, ?_⟩
          obtain rfl : p = vic.proc := by
            by_contra hpv
            exact hne (congrArg Proc.pagesSwappedOut (update_of_ne hpv _ _))
          exact hp
        · exact Sat.seq_emit_broken hbroken

/-- Apart from reference bits, one frame-table entry and one page-table entry changed, and one swap slot
became used. -/
structure OneEvicted (k k' : Kernel D) : Prop where
  frame : ∃ i, k'.frametable i ≠ k.frametable i ∧ ∀ j, j ≠ i → k'.frametable j = k.frametable j
  pte : ∃ r v, (k'.tables.entry r v).map withoutA ≠ (k.tables.entry r v).map withoutA ∧
    ∀ r' w, ¬ (r' = r ∧ w = v) →
      (k'.tables.entry r' w).map withoutA = (k.tables.entry r' w).map withoutA
  slot : ∃ s, (k.swaptable s).used = false ∧ (k'.swaptable s).used = true ∧
    ∀ t, t ≠ s → k'.swaptable t = k.swaptable t

omit [SwapStore D] in
theorem oneEvicted_evicted {k₁ : Kernel D} (h : Turned k k₁) {vic : Victim} {pt : Nat} {s : Fin maxSwap}
    {slot : SwapSlot} {d : D} {e : Pte} (hp : (k.frametable vic.idx).proc = some vic.proc)
    (he : k₁.tables.entry pt (vpn vic.va) = some e) (hV : e.getLsbD pteV = true)
    (hs : (k.swaptable s).used = false) (hslot : slot.used = true) :
    OneEvicted k (k₁.evicted vic pt s slot d e) := by
  obtain ⟨T, hand, rfl, hT⟩ := h
  refine ⟨⟨vic.idx, ?_, ?_⟩, ⟨pt, vpn vic.va, ?_, ?_⟩, ⟨s, hs, ?_, ?_⟩⟩
  · rw [Kernel.evicted_frame]
    intro heq
    have hnone := congrArg Frame.proc heq
    rw [hp] at hnone
    cases hnone
  · intro j hj
    exact update_of_ne hj _ _
  · show ((T.setEntry pt (vpn vic.va) (swapEntry s e)).entry pt (vpn vic.va)).map withoutA ≠ _
    change T.entry pt (vpn vic.va) = some e at he
    rw [Tables.entry_setEntry, if_pos ⟨rfl, rfl⟩, he, ← hT.entry, he]
    intro heq
    have hbit := congrArg (fun o => o.map fun x : Pte => x.getLsbD pteV) heq
    simp only [Option.map_some, Option.some.injEq] at hbit
    rw [getLsbD_withoutA _ (by decide) (by decide), getLsbD_withoutA _ (by decide) (by decide),
      swapEntry_not_valid, hV] at hbit
    cases hbit
  · intro r' w hne
    show ((T.setEntry pt (vpn vic.va) (swapEntry s e)).entry r' w).map withoutA = _
    rw [Tables.entry_setEntry, if_neg hne, hT.entry]
  · show (update k.swaptable s slot s).used = true
    rw [update_self]
    exact hslot
  · intro t ht
    exact update_of_ne ht _ _

/-- **A failed eviction changes nothing** but reference bits and the hand of the clock, and one that
succeeds changes one entry of each table, as long as an entry of the frame table with a process has a
frame. -/
theorem clockEvict_changes (me : ProcId) {pa : Nat} {es : List (Eviction D)}
    (h : clockEvict me k = .ok (pa, k', es))
    (hpa : ∀ i, (k.frametable i).proc ≠ none → (k.frametable i).pa ≠ 0) :
    (pa = 0 → ∃ T hand, k' = k.setClock T hand ∧ SameButA k.tables T) ∧
      (pa ≠ 0 → OneEvicted k k') := by
  obtain ⟨-, hres, -⟩ := (clockEvict_result Watch.lenient_lax me).holds h
  cases hres with
  | failed hturn => exact ⟨fun _ => hturn, fun hne => absurd rfl hne⟩
  | out hturn hp _ he hV hs _ _ =>
    refine ⟨fun h0 => absurd h0 (hpa _ (by rw [hp]; simp)), fun _ => ?_⟩
    exact oneEvicted_evicted hturn hp he hV hs rfl

/-! ## Three runs -/

/-- `twoPages` with every swap slot taken. -/
def twoPagesFull : Kernel PageArray := { twoPages with swaptable := fun _ => ⟨true, 0, 0, .raid0⟩ }

/-- The second page goes out, or there is no slot for it. -/
theorem clockEvict_changes_twoPages :
    (∃ k' es, clockEvict 0 twoPages = .ok (0x80031000, k', es) ∧ OneEvicted twoPages k') ∧
    ∃ k' es, clockEvict 0 twoPagesFull = .ok (0, k', es) ∧ (k'.frametable 1).pa = 0x80031000 ∧
      ∃ T hand, k' = twoPagesFull.setClock T hand ∧ SameButA twoPagesFull.tables T := by
  have hpa : ∀ i, (twoPages.frametable i).proc ≠ none → (twoPages.frametable i).pa ≠ 0 := by decide
  obtain ⟨_, k₁, es₁, h₁, rfl⟩ : Returns (clockEvict 0) (fun pa _ _ => pa = 0x80031000) twoPages := by
    decide +kernel
  obtain ⟨_, k₂, es₂, h₂, rfl, hframe⟩ : Returns (clockEvict 0)
      (fun pa k' _ => pa = 0 ∧ (k'.frametable 1).pa = 0x80031000) twoPagesFull := by decide +kernel
  exact ⟨⟨k₁, es₁, h₁, (clockEvict_changes 0 h₁ hpa).2 (by decide)⟩,
    k₂, es₂, h₂, hframe, (clockEvict_changes 0 h₂ hpa).1 rfl⟩

/-- A frame-table entry that has a process and no frame, though it is not in use. -/
def strayEntry : Kernel PageArray :=
  { Kernel.boot .small [] ⟨fun _ => junk 0⟩ with
    tables := fun _ => some ⟨fun _ => some ⟨0, fun _ => some ⟨0, fun _ => bit pteV⟩⟩⟩
    frametable := fun i => if i = 0 then ⟨false, some 0, 0, 0⟩ else ⟨false, none, 0, 0⟩ }

/-- **The page of a stray entry goes out**, and the result is `0`: no used entry has a null frame, and
yet a swap slot was taken. -/
theorem clockEvict_stray : (∀ i, (strayEntry.frametable i).used = true → (strayEntry.frametable i).pa ≠ 0) ∧
    (strayEntry.swaptable 0).used = false ∧
    Returns (clockEvict 0) (fun pa k' _ => pa = 0 ∧ (k'.swaptable 0).used = true) strayEntry := by
  decide +kernel

end Xv6
