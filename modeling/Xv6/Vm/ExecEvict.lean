import Xv6.Vm.CopySpec
import Xv6.Vm.ExecSpec
import Xv6.Vm.Spare

/-!
# Evictions while `kexec` runs

The frame table names the owner of a frame as a process and an address. While `kexec` runs, its process
has two page tables, and `clock_evict` looks the address up in the current one. If the victim is a page of
the table under construction, the entry that it invalidates belongs to another frame, and the frame that
it hands out stays mapped. This is the only thing that can go wrong: as long as no victim is a page of the new
table, all evictions are sound, and the kernel is consistent when `kexec` returns. With enough free memory
nothing is evicted.
-/

namespace Xv6

open TraceM

variable {D : Type} [SwapStore D] {k k' : Kernel D} {me : ProcId} {path : List UInt8} {ip : Option ExecFile}
  {argv : List KString}

omit [SwapStore D] in
/-- An eviction is sound, or its victim is a page of the new table. -/
def execWatch : Watch Panic (Eviction D) where
  fine ev := (ev.Apt ∧ ¬ ev.OfNewTable) ∧ ev.Sound
  broken ev := (¬ ev.Apt ∧ ev.OfNewTable) ∧ ¬ ev.Sound
  allowed _ := True
  allowed_of_broken _ _ := trivial

/-- Every end of `kexec` after the table was built leads to a consistent kernel. -/
theorem kexec_of_carried {W : Watch Panic (Eviction D)} {J : Nat → Kernel D → Prop} {fits : Nat → Prop}
    (hkfree : W.allowed .kfree) (hW : Carried W me k J fits)
    (hfits : ∀ f, ip = some f → ∀ s ≤ f.imageTop, fits s) (hk : Consistent k) (hme : (k.proc me).state ≠ .unused) :
    Sat W (kexec me path ip argv) (fun _ k' => Consistent k') k := by
  refine kexec_rule hW hfits hk (fun _ h => h) ?_ ?_
  · intro pt s k₁ hnew h₁
    exact (execBad_spec hkfree hk hnew h₁).mono fun _ _ h => h.2
  · intro pt base frame entry k₁ hnew hload
    have hal := hload.aligned
    have h₁ := hload.building
    rw [← pgroundup_of_aligned (show (base + pgsize + pgsize) % pgsize = 0 by unfold pgsize at *; omega)] at h₁
    exact execSwitch_spec hkfree hk hme hnew h₁

/-- **`kexec`** leads to a consistent kernel as long as it evicts no page of the new table. -/
theorem kexec_spec (hk : Consistent k) (hme : (k.proc me).state ≠ .unused) :
    Sat execWatch (kexec me path ip argv) (fun _ k' => Consistent k') k := by
  refine kexec_of_carried trivial (.of_lift ?_ ?_) (fun _ _ _ _ => trivial) hk hme
  · intro Q h
    exact h.rewatch (fun _ hw => hw) (fun _ hw => absurd rfl hw.1.1) fun _ _ => trivial
  · intro pt sz newsz xperm k Q h
    exact h.rewatch (fun _ hw => hw) (fun _ hw => hw.2) fun _ _ => trivial

/-! ## With memory to spare -/

/-- The pages of the new image: those below the end of the segments, a guard page and the stack. -/
def ExecFile.pages (f : ExecFile) : Nat := pgroundup f.imageTop / pgsize + (userstack + 1)

/-- Three pages for each page of the image that is still missing, when those below `hi` are there. -/
def SpareFrom (n hi : Nat) (k : Kernel D) : Prop := Spare (3 * (n - hi / pgsize)) (n - hi / pgsize) k

/-- `uvmalloc` takes at most three pages for each page of the image. -/
theorem SpareFrom.uvmalloc {pt sz newsz n : Nat} {xperm : Pte} (h : SpareFrom n (pgroundup sz) k)
    (hnew : newsz ≤ n * pgsize) : Sat .silent (uvmalloc me pt sz newsz xperm)
      (fun res k' => SpareFrom n (pgroundup (if res = 0 then sz else res)) k') k := by
  unfold Xv6.uvmalloc
  split
  · refine Sat.ret ?_
    rwa [ite_eq_right_iff.mpr fun h0 : sz = 0 => by rw [h0]]
  · next hge =>
      have hround : ∀ x, pgroundup x = pgroundup x / pgsize * pgsize := fun x =>
        (Nat.div_mul_cancel (Nat.dvd_of_mod_eq_zero (pgroundup_aligned x))).symm
      have hmono := pgroundup_mono (Nat.not_lt.mp hge)
      have htop : pgroundup newsz ≤ n * pgsize := by
        have := pgroundup_mono hnew
        rwa [pgroundup_of_aligned (Nat.mul_mod_left _ _)] at this
      have hlow := hround sz
      have hhigh := hround newsz
      unfold SpareFrom at h
      have h' : Spare (3 * (n - pgroundup newsz / pgsize) + 3 * ((pgroundup newsz - pgroundup sz) / pgsize))
          (n - pgroundup newsz / pgsize + (pgroundup newsz - pgroundup sz) / pgsize) k := by
        refine h.mono ?_ ?_ <;>
          · unfold pgsize at *
            omega
      refine (h'.uvmallocLoop _).mono ?_
      rintro res k' ⟨rfl, h₁⟩
      split
      · next h0 =>
          have hz : sz = 0 := by omega
          rw [h0] at h₁
          rw [hz]
          exact h₁
      · exact h₁

/-- With three free pages for each page of the image and five for the root and the special pages,
`kexec` evicts nothing. -/
theorem kexec_silent (hk : Consistent k) (hme : (k.proc me).state ≠ .unused)
    (hroom : ∀ f, ip = some f → k.activeFrames + f.pages ≤ maxFrames ∧ 3 * f.pages + 5 ≤ k.freelist.length) :
    Sat .silent (kexec me path ip argv) (fun _ k' => Consistent k') k := by
  cases ip with
  | none => exact Sat.ret hk
  | some f =>
    obtain ⟨hframes, hpages⟩ := hroom f rfl
    obtain ⟨g, hready⟩ := hk.ready
    have hcarried : Carried .silent me k (SpareFrom f.pages) (· ≤ f.imageTop) := by
      have hstart : Spare (3 * f.pages + 5) f.pages k :=
        ⟨hready.lock, hpages, fun h0 => hready.inv.ne_zero (by rw [hready.inv.free.free 0 h0]; simp) rfl, hframes⟩
      refine ⟨fun h => h.silence ?_, fun hwant hj h => h.silence (hj.uvmalloc ?_), fun h => h.congr rfl rfl rfl,
        Nat.zero_le _⟩
      · exact hstart.procPagetable
      · -- the image ends below its pages, and so does the stack behind it
        have hround := Nat.div_mul_cancel (Nat.dvd_of_mod_eq_zero (pgroundup_aligned f.imageTop))
        unfold ExecFile.pages
        rw [Nat.add_mul, hround]
        rcases hwant with hle | ⟨s, hs, rfl⟩
        · exact (hle.trans (le_pgroundup _)).trans (Nat.le_add_right _ _)
        · exact Nat.add_le_add_right (pgroundup_mono hs) _
    refine kexec_of_carried trivial hcarried ?_ hk hme
    rintro _ ⟨⟩ s hs
    exact hs

/-- **Evictions during `kexec` are sound** exactly when none of them takes a page of the table under
construction. Each victim is then a page that its process maps, and the kernel is consistent again.
With enough free pages there are no evictions. -/
theorem kexec_sound_iff {res : Int} {l : List (Eviction D)} (hk : Consistent k)
    (hme : (k.proc me).state ≠ .unused) (hrun : kexec me path ip argv k = .ok (res, k', l)) :
    ((∀ ev ∈ l, ev.Sound) ↔ ∀ ev ∈ l, ¬ ev.OfNewTable) ∧ ((∀ ev ∈ l, ev.Apt) ↔ ∀ ev ∈ l, ¬ ev.OfNewTable) ∧
    ((∀ ev ∈ l, ¬ ev.OfNewTable) → Consistent k') ∧
    ((∀ f, ip = some f → k.activeFrames + f.pages ≤ maxFrames ∧ 3 * f.pages + 5 ≤ k.freelist.length) → l = []) := by
  have hsilent := fun hroom => Sat.no_events (kexec_silent hk hme hroom) hrun
  have h : Sat execWatch (kexec me path ip argv) (fun _ k' => Consistent k') k := kexec_spec hk hme
  unfold Sat at h
  rw [hrun] at h
  rcases h with ⟨ev, hmem, ⟨hapt, hnew⟩, hunsound⟩ | ⟨hfine, hcons⟩
  · have hold : ¬ ∀ ev ∈ l, ¬ ev.OfNewTable := fun h => h ev hmem hnew
    exact ⟨iff_of_false (fun h => hunsound (h ev hmem)) hold, iff_of_false (fun h => hapt (h ev hmem)) hold,
      fun h => absurd h hold, hsilent⟩
  · have hold : ∀ ev ∈ l, ¬ ev.OfNewTable := fun ev hmem => (hfine ev hmem).1.2
    exact ⟨iff_of_true (fun ev hmem => (hfine ev hmem).2) hold,
      iff_of_true (fun ev hmem => (hfine ev hmem).1.1) hold, fun _ => hcons, hsilent⟩

/-! ## A kernel short of memory -/

namespace Tight

/-- An executable file with one segment: a page at address 0. -/
def prog : ExecFile where
  size := 124
  byte i := (([0x7F, 0x45, 0x4C, 0x46] : List UInt8) ++ List.replicate 28 0 ++ [64] ++ List.replicate 23 0 ++ [1] ++
    List.replicate 7 0 ++ [1, 0, 0, 0, 7, 0, 0, 0, 120] ++ List.replicate 23 0 ++ [4] ++ List.replicate 8 0 ++
    [16] ++ List.replicate 14 0 ++ [1, 2, 3, 4]).getD i 0

def args : List KString := [⟨[104, 105], by decide, by decide⟩]

/-- A kernel with `n` frames. -/
def start (n : Nat) : Kernel PageArray :=
  .boot Image.small ((List.range n).map fun i => 0x80022000 + i * pgsize) ⟨fun _ => junk 0⟩

/-- The first process. -/
def alone (n : Nat) : Kernel PageArray := (userinit 0 0).after (start n)

/-- It has one page. -/
def grown (n : Nat) : Kernel PageArray := (KernelCall.run (.growproc 0 4096)).after (alone n)

/-- The entry of that page. -/
def entry : Pte := mapEntry 0x80026000 (growPerm (bit pteW))

/-- User code has read from it. -/
def loaded (n : Nat) : Kernel PageArray :=
  (grown n).setEntry ((grown n).proc 0).pagetable (vpn 0) (entry ||| bit pteA)

instance (n : Nat) : Decidable ((grown n).Access 0 0 pteR entry) :=
  inferInstanceAs (Decidable (_ ∧ _ ∧ _ ∧ _ ∧ _ ∧ _))

/-- The calls that lead to these states succeed. -/
theorem runs : ∀ n ∈ [12, 14, 20, 30], (userinit 0 0).result (start n) = some () ∧
    ((alone n).proc 0).state ≠ .unused ∧ (KernelCall.run (.growproc 0 4096)).result (alone n) = some () ∧
    (grown n).Access 0 0 pteR entry ∧ ((loaded n).proc 0).state ≠ .unused := by
  decide +kernel

theorem loaded_used {n : Nat} (hn : n ∈ [12, 14, 20, 30]) : ((loaded n).proc 0).state ≠ .unused :=
  (runs n hn).2.2.2.2

theorem loaded_consistent {n : Nat} (hn : n ∈ [12, 14, 20, 30]) : Consistent (loaded n) := by
  have hle : n ≤ 30 := by
    revert n
    decide
  obtain ⟨halone, hused, hgrown, haccess, -⟩ := runs n hn
  have hstart : Consistent (start n) := by
    refine .boot ?_ ?_
    · refine List.Nodup.map ?_ List.nodup_range
      intro i j hij
      change 0x80022000 + i * pgsize = 0x80022000 + j * pgsize at hij
      unfold pgsize at hij
      omega
    · intro pa hpa
      obtain ⟨i, hi, rfl⟩ := List.mem_map.mp hpa
      have hi' := List.mem_range.mp hi
      show (0x80022000 + i * pgsize) % pgsize = 0 ∧ 0x80022000 ≤ 0x80022000 + i * pgsize ∧ _
      unfold pgsize phystop kernbase
      omega
  obtain ⟨l, hrun⟩ := run_of_result halone
  have halone' : Consistent (alone n) := hstart.userinit hrun
  have hgrown' : Consistent (grown n) := halone'.after (c := .growproc 0 4096) hused hgrown
  exact hgrown'.loaded haccess

end Tight

/-- With twelve frames the old page is evicted, and `kexec` fails for lack of memory. With thirty it
succeeds and evicts nothing. -/
theorem kexec_sound_tight : (∃ k' ev,
    kexec 0 [97] (some Tight.prog) Tight.args (Tight.loaded 12) = .ok (-1, k', [ev]) ∧ ¬ ev.OfNewTable ∧ ev.Sound ∧
      Consistent k') ∧
    ∃ k', kexec 0 [97] (some Tight.prog) Tight.args (Tight.loaded 30) = .ok (1, k', []) ∧ Consistent k' := by
  constructor
  · obtain ⟨_, k', l, hrun, rfl, hone, hmaps⟩ : Returns (kexec 0 [97] (some Tight.prog) Tight.args)
        (fun res _ l => res = -1 ∧ l.length = 1 ∧ ∀ ev ∈ l, (ev.before.frametable ev.entry).proc = some 0 ∧
          (ev.before.tables.entry (ev.before.proc 0).pagetable (vpn (ev.before.frametable ev.entry).va)).any
            fun e => e.getLsbD pteV ∧ pte2pa e = (ev.before.frametable ev.entry).pa) (Tight.loaded 12) := by
      decide +kernel
    obtain ⟨ev, rfl⟩ := List.length_eq_one_iff.mp hone
    obtain ⟨hproc, hentry⟩ := hmaps ev List.mem_cons_self
    obtain ⟨e, he, hpa⟩ := (Option.any_eq_true _ _).mp hentry
    obtain ⟨hV, hpa⟩ := of_decide_eq_true hpa
    obtain ⟨hsound, hapt, hcons, -⟩ :=
      kexec_sound_iff (Tight.loaded_consistent (by decide)) (Tight.loaded_used (by decide)) hrun
    have hold : ∀ ev' ∈ [ev], ¬ ev'.OfNewTable := by
      refine hapt.mp fun ev' hev => ?_
      rw [List.mem_singleton.mp hev]
      exact ⟨0, e, hproc, he, hV, hpa⟩
    exact ⟨k', ev, hrun, hold ev List.mem_cons_self, hsound.mpr hold ev List.mem_cons_self, hcons hold⟩
  · obtain ⟨_, k', l, hrun, rfl⟩ : Returns (kexec 0 [97] (some Tight.prog) Tight.args) (fun res _ _ => res = 1)
        (Tight.loaded 30) := by decide +kernel
    obtain ⟨-, -, hcons, hroom⟩ :=
      kexec_sound_iff (Tight.loaded_consistent (by decide)) (Tight.loaded_used (by decide)) hrun
    have hspare : (Tight.loaded 30).activeFrames + Tight.prog.pages ≤ maxFrames ∧
        3 * Tight.prog.pages + 5 ≤ (Tight.loaded 30).freelist.length := by decide +kernel
    obtain rfl := hroom (by rintro _ ⟨⟩; exact hspare)
    exact ⟨k', hrun, hcons (by simp)⟩

/-- **An unsound eviction.** With fourteen frames the first page of the stack evicts the page of the new
program at address 0: the old program's page at that address is marked as swapped out, and the frame that
goes to the stack stays mapped at address 0 of the new table. `kexec` reports success. -/
theorem kexec_evicts_new_page : Consistent (Tight.loaded 14) ∧ ∃ k' ev,
    kexec 0 [97] (some Tight.prog) Tight.args (Tight.loaded 14) = .ok (1, k', [ev]) ∧
    (∃ e, ev.after.tables.entry 0x80029000 (vpn 0) = some e ∧ e.getLsbD pteV = true ∧ pte2pa e = ev.pa) ∧
    ¬ ev.Sound := by
  obtain ⟨_, k', l, hrun, rfl, hone, hmaps⟩ : Returns (kexec 0 [97] (some Tight.prog) Tight.args)
      (fun res _ l => res = 1 ∧ l.length = 1 ∧ ∀ ev ∈ l,
        (ev.after.tables.entry 0x80029000 (vpn 0)).any fun e => e.getLsbD pteV ∧ pte2pa e = ev.pa)
      (Tight.loaded 14) := by
    decide +kernel
  obtain ⟨ev, rfl⟩ := List.length_eq_one_iff.mp hone
  obtain ⟨e, he, hpa⟩ := (Option.any_eq_true _ _).mp (hmaps ev List.mem_cons_self)
  obtain ⟨hV, hpa⟩ := of_decide_eq_true hpa
  refine ⟨Tight.loaded_consistent (by decide), k', ev, hrun, ⟨e, he, hV, hpa⟩, fun hsound => ?_⟩
  exact hsound _ _ e (by simp) he hV hpa

end Xv6
