import Xv6.Vm.FlatMemory
import Xv6.Vm.MoveSpec

/-!
# What a copy of an address space holds

`uvmcopy` reads an entry of the parent, asks for a frame, and that request may evict any page: the page
it is about to copy, or one it copied before. The contents of pages do not depend on where they are, so
the child ends up with the contents that the parent had when the call began.
-/

namespace Xv6

variable {D : Type} [SwapStore D] {R : View D} {k k' k₁ : Kernel D} {c : Ctx} {g : Ledger}
  {me child : ProcId} {old new i hi : Nat} {v : Vpn} {e : Pte}

open TraceM

/-- Page `v` of the table `new` is a copy of what page `v` of `old` was: absent if that was absent, and
else with its permissions; its content is the same. -/
structure PageCopied (R : View D) (old new : Nat) (v : Vpn) (k k' : Kernel D) : Prop where
  absent : k.tables.Hollow old v → k'.tables.Hollow new v
  present : ∀ e, k.tables.entry old v = some e → Present e →
    ∃ e', k'.tables.entry new v = some e' ∧ Present e' ∧ SameFlags e e'
  content : ∀ page, Holds R k old v page → Holds R k' new v page

/-- Contents of user pages outside `X` are kept. -/
def KeepsBut (R : View D) (X : Nat → Vpn → Prop) (k k' : Kernel D) : Prop :=
  ∀ r v page, ¬ Special v → ¬ X r v → Holds R k r v page → Holds R k' r v page

omit [SwapStore D] in
theorem holds_of_empty {r : Nat} {page : Page} (h : k.tables.Empty r v) :
    Holds R k r v page ↔ page = junk 0 := by
  unfold Holds
  cases he : k.tables.entry r v with
  | none => rfl
  | some e =>
    obtain rfl := h e he
    exact content_empty (getLsbD_zero_entry _) (getLsbD_zero_entry _)

omit [SwapStore D] in
/-- Where the bookkeeping is right, an entry without a page is zero. -/
theorem Ready.empty_of_hollow {r : Nat} (h : Ready c g k) (hh : k.tables.Hollow r v) :
    k.tables.Empty r v := by
  intro e he
  have hnot := not_or.mp (hh e he)
  exact h.inv.pages.zero he (by simpa using hnot.1) (by simpa using hnot.2)

namespace PageCopied

variable {S : Move → Prop}

omit [SwapStore D] in
/-- The page was moved about before it was copied. -/
theorem before (hm : Moves S k k₁) (hfill : k.tables.Hollow old v → ¬ S (.fill old v)) (hclear : ¬ S (.clear old v))
    (hrelease : ¬ S (.release old v)) (hkeep : ∀ page, Holds R k old v page → Holds R k₁ old v page)
    (h : PageCopied R old new v k₁ k') : PageCopied R old new v k k' where
  absent hh := h.absent (hm.hollow (hfill hh) hh)
  present e he hp := by
    obtain ⟨e₁, he₁, hp₁, hf₁⟩ := hm.present hclear hrelease he hp
    obtain ⟨e', he', hp', hf'⟩ := h.present e₁ he₁ hp₁
    exact ⟨e', he', hp', hf₁.trans hf'⟩
  content page hp := h.content page (hkeep page hp)

omit [SwapStore D] in
/-- The copy was moved about. -/
theorem after (h : PageCopied R old new v k k₁) (hm : Moves S k₁ k') (hfill : ¬ S (.fill new v))
    (hclear : ¬ S (.clear new v)) (hrelease : ¬ S (.release new v))
    (hkeep : ∀ page, Holds R k₁ new v page → Holds R k' new v page) : PageCopied R old new v k k' where
  absent hh := hm.hollow hfill (h.absent hh)
  present e he hp := by
    obtain ⟨e₁, he₁, hp₁, hf₁⟩ := h.present e he hp
    obtain ⟨e', he', hp', hf'⟩ := hm.present hclear hrelease he₁ hp₁
    exact ⟨e', he', hp', hf₁.trans hf'⟩
  content page hp := hkeep page (h.content page hp)

omit [SwapStore D] in
/-- Where there is no page there is nothing to copy. -/
theorem of_empty (hold : k.tables.Empty old v) (hnew : k.tables.Empty new v) :
    PageCopied R old new v k k where
  absent _ := hnew.hollow
  present e he hp := absurd hp (hold.hollow e he)
  content _ hp := (holds_of_empty hnew).mpr ((holds_of_empty hold).mp hp)

theorem of_resident (he : k.tables.entry old v = some e) (hV : e.getLsbD pteV = true)
    (h : CopiedFrom R new v e k k') : PageCopied R old new v k k' where
  absent hh := absurd (Or.inl hV) (hh e he)
  present e₁ he₁ _ := by
    rw [he] at he₁
    cases he₁
    obtain ⟨e', he', hV', hf⟩ := h.entry
    exact ⟨e', he', Or.inl hV', hf⟩
  content _ hp := by
    unfold Holds at hp
    rw [he, content_valid hV] at hp
    rw [hp]
    exact h.content

end PageCopied

/-! ## The loop -/

/-- One turn of the loop of `uvmcopy`, from `k` to `k'`. -/
structure CopyTurn (R : View D) (me : ProcId) (old new : Nat) (v : Vpn) (k k' : Kernel D) : Prop where
  moves : Moves (fun m => m.IsFault (.lenient : Watch Panic (Eviction D)) me old v ∨ m = .fill new v) k k'
  keeps : KeepsBut R (OnlyPage new v) k k'
  copied : PageCopied R old new v k k'

omit [SwapStore D] in
/-- A turn that finds no page. -/
theorem CopyTurn.refl (hold : k.tables.Empty old v) (hnew : k.tables.Empty new v) : CopyTurn R me old new v k k :=
  ⟨.refl, fun _ _ _ _ _ hp => hp, .of_empty hold hnew⟩

/-- What the loop has done when it ends well. -/
structure CopyDone (R : View D) (old new lo hi : Nat) (k k' : Kernel D) : Prop where
  keeps : KeepsBut R (Span new lo hi) k k'
  copied : ∀ v : Vpn, lo ≤ v.addr → v.addr < hi → PageCopied R old new v k k'

omit [SwapStore D] in
/-- A turn, then the rest of the loop. -/
theorem CopyTurn.done (hne : new ≠ old) (hal : i % pgsize = 0) (hle : i + pgsize ≤ hi) (hlim : hi ≤ trapframe)
    (h : CopyTurn R me old new (vpn i) k k₁) (hd : CopyDone R old new (i + pgsize) hi k₁ k')
    (hm : Moves (Move.IsCopy (.lenient : Watch Panic (Eviction D)) me old new (i + pgsize)) k₁ k') :
    CopyDone R old new i hi k k' := by
  have hpos : 0 < pgsize := by decide
  have hlt : i < trapframe := by omega
  have haddr := addr_vpn hal (lt_trans hlt (by decide))
  have hspan : ¬ Span new (i + pgsize) hi new (vpn i) := by
    rintro ⟨-, hlo, -⟩
    omega
  refine ⟨?_, fun v hlo hv => ?_⟩
  · intro r v page hs hX hp
    refine hd.keeps r v page hs (fun hf => hX ⟨hf.1, by have := hf.2.1; omega, hf.2.2⟩) ?_
    refine h.keeps r v page hs ?_ hp
    rintro ⟨rfl, rfl⟩
    exact hX ⟨rfl, haddr.ge, by omega⟩
  · by_cases hvi : v = vpn i
    · subst hvi
      refine h.copied.after hm ?_ ?_ ?_ ?_
      · rintro (⟨w, hf | hf | hf⟩ | ⟨w, hw, hf⟩)
        · cases hf
        · cases hf
          exact hne rfl
        · cases hf
        · cases hf
          omega
      · rintro (⟨w, hf | hf | hf⟩ | ⟨w, hw, hf⟩) <;> cases hf
      · rintro (⟨w, hf | hf | hf⟩ | ⟨w, hw, hf⟩) <;> cases hf
      · exact fun page => hd.keeps new _ page (not_special_of_lt hal hlt) hspan
    · have hge : i + pgsize ≤ v.addr := by
        have h₁ := v.addr_aligned
        have hvi' : v.addr ≠ i := by
          intro heq
          apply hvi
          rw [← heq, vpn_addr]
        unfold pgsize at *
        omega
      refine (hd.copied v hge hv).before h.moves ?_ ?_ ?_ ?_
      · rintro - ((hf | hf | hf) | hf)
        · cases hf
        · cases hf
          exact hvi rfl
        · cases hf
        · cases hf
          exact hvi rfl
      · rintro ((hf | hf | hf) | hf) <;> cases hf
      · rintro ((hf | hf | hf) | hf) <;> cases hf
      · have hs := not_special_of_lt v.addr_aligned (hv.trans_le hlim)
        rw [vpn_addr] at hs
        exact fun page => h.keeps old v page hs fun hf => hvi hf.2

/-- One turn of `uvmcopy` copies one page. -/
theorem uvmcopyTurn_copies (hR : Reliable R) (h : Copying c me child old new i k) (hlt : i < trapframe) :
    Sat (watch c) (uvmcopyTurn me old new i child)
      (fun ok k' => ok = true → CopyTurn R me old new (vpn i) k k') k := by
  obtain ⟨g, hready⟩ := h.ready
  obtain ⟨t, ht⟩ := Option.isSome_iff_exists.mp h.table
  have hempty := h.empty_here hlt
  unfold uvmcopyTurn
  apply Sat.seq_run (walk_run (lt_trans hlt (by decide)) ht)
  cases he : k.tables.entry old (vpn i) with
  | none =>
    refine Sat.ret fun _ => .refl ?_ hempty
    intro e hf
    rw [he] at hf
    cases hf
  | some e =>
    apply Sat.seq_run (deref_run (k := k) (p := ⟨old, vpn i⟩) he)
    split
    · next hnone =>
        refine Sat.ret fun _ => .refl ?_ hempty
        intro e' he'
        rw [he] at he'
        cases he'
        exact hready.inv.pages.zero he hnone.1 hnone.2
    · next hsome =>
        have hpresent : Present e := by
          unfold Present
          revert hsome
          cases e.getLsbD pteV <;> cases e.getLsbD pteS <;> simp
        apply Sat.seq
        apply ((uvmcopyFetch_spec (R := R) hready h.parent h.table h.size he).and
          (uvmcopyFetch_moves Watch.lenient_lax h.parent)).mono
        rintro present k₁ ⟨⟨⟨g₁, hready₁⟩, hcalm, hkeeps, hresident⟩, hmoves⟩
        cases present with
        | false => exact Sat.ret fun hf => by cases hf
        | true =>
          obtain ⟨e₁, he₁, hV₁⟩ := hresident rfl
          have hempty₁ : k₁.tables.Empty new (vpn i) := hcalm.empty new _ (fun hf => h.ne hf.1) hempty
          apply ((uvmcopyPage_spec (R := R) hready₁ ((hcalm.tables new).trans h.fresh)
            (h.root.trans (hcalm.procs child).pagetable.symm) hempty₁ h.aligned hlt he₁ hV₁).and
            (uvmcopyPage_moves Watch.lenient_lax hempty₁.hollow)).mono
          rintro copied k₂ ⟨⟨-, -, hcopied⟩, hmoves₂⟩ hok
          have hfrom := hcopied hok
          refine ⟨?_, ?_, ?_⟩
          · exact (hmoves.mono fun _ => Or.inl).trans (hmoves₂.mono fun _ hm => hm.imp Or.inl id)
          · intro r w page hw hX hp
            exact hfrom.others hR r w page hw hX (hkeeps hR r w page hw hp)
          · refine (PageCopied.of_resident he₁ hV₁ hfrom).before hmoves ?_ ?_ ?_ ?_
            · exact fun hh => absurd hpresent (hh e he)
            · rintro (hf | hf | hf) <;> cases hf
            · rintro (hf | hf | hf) <;> cases hf
            · exact fun page => hkeeps hR old _ page (not_special_of_lt h.aligned hlt)

/-- The loop of `uvmcopy` copies all pages. -/
theorem uvmcopyLoop_copies (hR : Reliable R) (n : Nat) :
    ∀ {k : Kernel D} {i : Nat}, Copying c me child old new i k → i + n * pgsize = hi → hi ≤ trapframe →
    Sat (watch c) (uvmcopyLoop me old new child n i) (fun res k' => res = 0 → CopyDone R old new i hi k k') k := by
  induction n with
  | zero =>
    intro k i _ hhi _
    refine Sat.ret fun _ => ⟨fun _ _ _ _ _ hp => hp, fun v hlo hv => ?_⟩
    omega
  | succ n ih =>
    intro k i h hhi hlim
    have hle : i + pgsize ≤ hi := by
      unfold pgsize at *
      omega
    have hlt : i < trapframe := by
      unfold pgsize at *
      omega
    rw [uvmcopyLoop_succ]
    apply Sat.seq
    apply ((uvmcopyTurn_spec h hlt).both (uvmcopyTurn_copies hR h hlt)).mono
    rintro ok k₁ ⟨⟨⟨g₁, hready⟩, hcalm⟩, hturn⟩
    cases ok with
    | false =>
      apply (uvmcopyErr_spec hready ((hcalm.tables new).trans h.fresh) hcalm h.aligned hlt.le).mono
      rintro res k₂ ⟨-, rfl, -⟩ hf
      cases hf
    | true =>
      have h₁ := h.next hlt ⟨g₁, hready⟩ (hcalm.mono fun r v hf => ⟨hf.1.imp_right And.right, hf.2⟩)
      have hmoves : Sat .lenient (uvmcopyLoop me old new child n (i + pgsize)) _ k₁ :=
        uvmcopyLoop_moves Watch.lenient_lax h.ne n h₁.parent (fun v hv ha => (h₁.empty v hv ha).hollow)
          h₁.aligned (by unfold pgsize at *; omega)
      apply ((ih h₁ (by unfold pgsize at *; omega) hlim).and hmoves).mono
      exact fun res k' h' h0 => (hturn rfl).done h.ne h.aligned hle hlim (h'.1 h0) (h'.2.2 h0)

/-! ## `uvmcopy` -/

/-- **A fork copies memory, whatever is evicted on the way.** The parent is any process of a consistent
kernel, with pages in memory, pages in swap and pages that were never allocated; the child is a process
without user pages; the swap device is reliable. If `uvmcopy` returns `0`, then each page below the size
of the parent is in the child what it was in the parent before: with the same content, in a frame or in
swap, and the same permissions, or absent. The pages of all other tables, among them that of the parent,
have the contents they had. -/
theorem uvmcopy_copies (hR : Reliable R) (h : Consistent k) (hme : (k.proc me).state ≠ .unused)
    (hchild : (k.proc child).state ≠ .unused) (hne : child ≠ me)
    (hempty : k.tables.EmptyFrom (k.proc child).pagetable 0) {l : List (Eviction D)}
    (hok : uvmcopy me (k.proc me).pagetable (k.proc child).pagetable (k.proc me).sz child k =
      .ok (0, k', l)) :
    (∀ v : Vpn, v.addr < (k.proc me).sz →
      PageCopied R (k.proc me).pagetable (k.proc child).pagetable v k k' ∧
        (k.tables.Empty (k.proc me).pagetable v → k'.tables.Empty (k.proc child).pagetable v)) ∧
    ∀ r v page, ¬ Special v → r ≠ (k.proc child).pagetable → Holds R k r v page → Holds R k' r v page := by
  obtain ⟨g, hready⟩ := h.ready
  have hspace := h.spaces.each me
  have hne' : (k.proc child).pagetable ≠ (k.proc me).pagetable :=
    fun heq => hne (h.spaces.inj child me (h.live child hchild) heq)
  have hrn := (h.spaces.each child).table (h.live child hchild)
  have hro := hspace.table (h.live me hme)
  have hcopies : Sat (watch .plain) (uvmcopyLoop me _ _ child _ 0) _ k :=
    uvmcopyLoop_copies (c := .plain) hR _ ⟨⟨g, hready⟩, rfl, hro, hspace.size, rfl, hrn, hne', hempty, rfl⟩
      (pgroundup_div_mul _) (pgroundup_le hspace.size)
  have hafter := uvmcopy_spec (c := .plain) hready rfl hro hspace.size rfl hrn hne' hempty hspace.size
  obtain ⟨hkeeps, hcopied⟩ := (sat_plain hcopies).2 _ _ _ hok rfl
  obtain ⟨⟨g', hready'⟩, -⟩ := (sat_plain hafter).2 _ _ _ hok
  refine ⟨fun v hv => ?_, fun r v page hv hr hp => hkeeps r v page hv (fun hf => hr hf.1) hp⟩
  have hc := hcopied v (Nat.zero_le _) (hv.trans_le (le_pgroundup _))
  exact ⟨hc, fun he => hready'.empty_of_hollow (hc.absent he.hollow)⟩

/-! ### A process with a page in memory and one in swap forks -/

namespace Family

/-- A child without pages. -/
@[irreducible] def claimed : Kernel PageArray := (allocproc 0).after evicted

set_option maxRecDepth 2048 in
/-- What the calls return, and the processes they leave behind: one page of the parent is in swap, and it can
be copied. -/
theorem runs : (allocproc 0).result evicted = some (some 1) ∧ (claimed.proc 0).state ≠ .unused ∧
    (claimed.proc 1).state ≠ .unused ∧
    ((claimed.tables.entry (claimed.proc 0).pagetable (vpn 0)).any fun e => Away e) ∧
    (uvmcopy 0 (claimed.proc 0).pagetable (claimed.proc 1).pagetable (claimed.proc 0).sz 1).result claimed =
      some 0 := by
  decide +kernel

theorem claimed_spec : Claimed 1 evicted claimed := by
  obtain ⟨g, hready⟩ := evicted_consistent.ready
  unfold claimed
  exact sat_plain_after (allocproc_spec hready evicted_consistent.spaces) runs.1

end Family

/-- A page that is out in swap is among those that the child gets. -/
theorem uvmcopy_copies_family :
    ((Family.claimed.tables.entry (Family.claimed.proc 0).pagetable (vpn 0)).any fun e => Away e) ∧
    ∃ k' l, uvmcopy 0 (Family.claimed.proc 0).pagetable
      (Family.claimed.proc 1).pagetable (Family.claimed.proc 0).sz 1 Family.claimed = .ok (0, k', l) ∧
    ∀ v : Vpn, v.addr < (Family.claimed.proc 0).sz → PageCopied PageArray.view
      (Family.claimed.proc 0).pagetable (Family.claimed.proc 1).pagetable v Family.claimed k' := by
  have hclaimed := Family.claimed_spec
  obtain ⟨-, hparent, hchild, haway, hcopied⟩ := Family.runs
  obtain ⟨l, hok⟩ := run_of_result hcopied
  refine ⟨haway, _, l, hok, fun v hv => ?_⟩
  exact ((uvmcopy_copies PageArray.reliable (hclaimed.consistent Family.evicted_consistent) hparent hchild
    (by decide) hclaimed.user hok).1 v hv).1

/-- **From boot on.** Whatever pages `kinit` found, after `userinit` every run leads to a state in which
the next call into the kernel does not panic for wrong bookkeeping (a `swapin` of a page that is not
out, a fault of the kernel, a page mapped twice, a leaf left in a table that is freed), and each page it
evicts is one that its process maps, in a frame that no table maps afterwards. -/
theorem boot_run_safe {D : Type} [SwapStore D] {image : Image} {free : List Nat} {d : D} {me : ProcId}
    {root : Nat} {k₀ k : Kernel D} {l : List (Eviction D)} {ops : List VmOp} {c : KernelCall}
    (hnodup : free.Nodup) (hfree : ∀ pa ∈ free, pa % pgsize = 0 ∧ image.kend ≤ pa ∧ pa < phystop)
    (hinit : userinit me root (.boot image free d) = .ok ((), k₀, l))
    (hrun : Transition.Run (fun k op k' => VmOp.Step k op k') k₀ ops k) (hc : c.Allowed k) :
    (∀ err, c.run k = .error err → ¬ err.Wild) ∧
      ∀ k' evs, c.run k = .ok ((), k', evs) → Consistent k' ∧ ∀ ev ∈ evs, ev.Apt ∧ ev.Sound := by
  have hk := ((Consistent.boot hnodup hfree).userinit hinit).run hrun
  have hsat := KernelCall.run_spec hk hc
  refine ⟨(sat_plain hsat).1, fun k' evs hok => ⟨(sat_plain hsat).2 _ _ _ hok, ?_⟩⟩
  unfold TraceM.Sat at hsat
  rw [hok] at hsat
  obtain ⟨w, -, hextra, -⟩ | ⟨hfine, -⟩ := hsat
  · exact absurd rfl hextra.1
  · exact fun ev hev => ⟨(hfine ev hev).1.1, (hfine ev hev).2⟩

/-- The eviction of a page of the first process. -/
theorem boot_run_safe_family : ∃ evs,
    (KernelCall.clockEvict 0).run Family.grown = .ok ((), Family.evicted, evs) ∧
      ∀ ev ∈ evs, ev.Apt ∧ ev.Sound := by
  obtain ⟨hinit, halone, hgrown, -⟩ := Family.grown_runs
  obtain ⟨l, hinit⟩ := run_of_result hinit
  obtain ⟨l₁, hgrown⟩ := run_of_result hgrown
  obtain ⟨evs, hevicted⟩ := run_of_result Family.lazyGrown_runs.1
  have hrun : Transition.Run (fun k op k' => VmOp.Step k op k') Family.alone
      [.call (.growproc 0 8192)] Family.grown := by
    unfold Family.grown
    exact .single ⟨halone, l₁, hgrown⟩
  unfold Family.evicted
  unfold Family.alone at hrun
  have hsafe := boot_run_safe (c := .clockEvict 0) (by decide) (by decide) hinit hrun trivial
  exact ⟨evs, hevicted, (hsafe.2 _ evs hevicted).2⟩

end Xv6
