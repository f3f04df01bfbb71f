import Xv6.Vm.ArgStack
import Xv6.Vm.ForkSpec

/-!
# Building a second address space

While `kexec` runs, its process has two page tables: the current one, and one under construction whose
user pages are `Building`: all pages below some bound are in memory and none above it. The frame table
names the process for the pages of both, so an eviction may pick the wrong table; as long as that has not
happened (`watch`), the pages of the new table stay where they are, and since each of them has its own
entry in the frame table there are at most `MAX_FRAMES` of them, whatever sizes the ELF file asks for.
-/

namespace Xv6

open TraceM Function

/-- The context of a call that builds the table `pt` for `me`. -/
def Ctx.exec (me : ProcId) (pt : Nat) : Ctx := ⟨some (me, pt), none⟩

variable {D : Type} {k₀ k k' k₁ : Kernel D} {g g₁ : Ledger} {me : ProcId} {pt hi lo : Nat}
  {P Q : Vpn → Pte → Prop}

/-- The table `pt` is under construction for `me`: its user pages are those below `hi`, all of them are
in memory and have entries in `P`. Beside them it maps the trampoline and the trapframe of `me`. All other
tables are those of `k₀`, apart from evictions. -/
structure Building (k₀ : Kernel D) (me : ProcId) (pt hi : Nat) (P : Vpn → Pte → Prop) (k : Kernel D) :
    Prop where
  ready : ∃ g, Ready (.exec me pt) g k
  apart : Apart pt k₀ k
  table : (k.tables pt).isSome
  aligned : hi % pgsize = 0
  above : k.tables.EmptyFrom pt hi
  full : ∀ v : Vpn, v.addr < hi → ∃ e, k.tables.entry pt v = some e ∧ e.getLsbD pteV = true ∧ P v e
  special : ∀ v e, Special v → k.tables.entry pt v = some e → e.getLsbD pteV = true →
    pte2pa e = k.image.trampoline ∨ pte2pa e = (k.proc me).trapframe

namespace Building

theorem mono (h : Building k₀ me pt hi P k) (hPQ : ∀ v e, v.addr < hi → P v e → Q v e) :
    Building k₀ me pt hi Q k := by
  refine ⟨h.ready, h.apart, h.table, h.aligned, h.above, ?_, h.special⟩
  intro v hv
  obtain ⟨e, he, hV, hP⟩ := h.full v hv
  exact ⟨e, he, hV, hPQ v e hv hP⟩

/-- The special entries after a change that sets no special entry. -/
theorem special_of {X : Nat → Vpn → Prop} {x : Option (ProcId × Nat)} (h : Building k₀ me pt hi P k)
    (hc : Calm x X k k') (v : Vpn) (e : Pte) (hv : Special v) (he : k'.tables.entry pt v = some e)
    (hV : e.getLsbD pteV = true) :
    pte2pa e = k'.image.trampoline ∨ pte2pa e = (k'.proc me).trapframe := by
  have h0 : e ≠ 0 := by
    rintro rfl
    simp at hV
  rw [hc.image, (hc.procs me).trapframe]
  exact h.special v e hv (hc.special pt v e hv he h0) hV

/-- A step that fills no page. -/
theorem calm (h : Building k₀ me pt hi P k) (hready : ∃ g, Ready (.exec me pt) g k')
    (hc : Calm (some (me, pt)) (fun _ _ => False) k k') : Building k₀ me pt hi P k' := by
  refine ⟨hready, h.apart.trans (hc.apart fun _ _ hf => hf.elim), (hc.tables pt).trans h.table, h.aligned,
    fun v hv ha => hc.empty pt v id (h.above v hv ha), ?_, h.special_of hc⟩
  intro v hv
  obtain ⟨e, he, hV, hP⟩ := h.full v hv
  refine ⟨e, hc.extra me pt v e rfl he ?_, hV, hP⟩
  rintro rfl
  simp at hV

/-- The next page is filled. -/
theorem fill (h : Building k₀ me pt hi P k) (hready : ∃ g, Ready (.exec me pt) g k')
    (hc : Calm (some (me, pt)) (OnlyPage pt (vpn hi)) k k') (hlt : hi < trapframe) {e : Pte}
    (he : k'.tables.entry pt (vpn hi) = some e) (hV : e.getLsbD pteV = true) (hP : P (vpn hi) e) :
    Building k₀ me pt (hi + pgsize) P k' := by
  have haddr := addr_vpn h.aligned (lt_trans hlt (by decide))
  have hal := h.aligned
  refine ⟨hready, h.apart.trans (hc.apart fun _ _ hf => hf.1), (hc.tables pt).trans h.table, ?_, ?_, ?_,
    h.special_of hc⟩
  · unfold pgsize at *
    omega
  · intro v hv ha
    refine hc.empty pt v ?_ (h.above v hv (by omega))
    rintro ⟨-, rfl⟩
    rw [haddr] at ha
    unfold pgsize at ha
    omega
  · intro v hv
    by_cases hlow : v.addr < hi
    · obtain ⟨e₀, he₀, hV₀, hP₀⟩ := h.full v hlow
      refine ⟨e₀, hc.extra me pt v e₀ rfl he₀ ?_, hV₀, hP₀⟩
      rintro rfl
      simp at hV₀
    · -- the page at `hi` is the only one in between
      have hva := v.addr_aligned
      have hva' : v.addr = hi := by
        unfold pgsize at *
        omega
      rw [← vpn_addr v, hva']
      exact ⟨e, he, hV, hP⟩

/-- Pages at the top are taken away again. -/
theorem cleared (h : Building k₀ me pt hi P k) (hready : ∃ g, Ready (.exec me pt) g k')
    (hlo : lo % pgsize = 0) (hle : lo ≤ hi)
    (hc : Cleared pt (fun v => lo ≤ v.addr ∧ v.addr < hi) k k') : Building k₀ me pt lo P k' := by
  refine ⟨hready, h.apart.trans ((hc.calm : Calm none (fun _ _ => False) k k').apart fun _ _ hf => hf.elim),
    (hc.tables pt).trans h.table, hlo, ?_, ?_, h.special_of (hc.calm : Calm none (fun _ _ => False) k k')⟩
  · intro v hv ha
    by_cases hhi : v.addr < hi
    · exact hc.cleared v ⟨ha, hhi⟩
    · exact hc.empty (h.above v hv (Nat.not_lt.mp hhi))
  · intro v hv
    obtain ⟨e, he, hV, hP⟩ := h.full v (by omega)
    exact ⟨e, by rw [hc.others pt v (by omega), he], hV, hP⟩

/-- **The table stays small**: each of its pages has an entry of its own in the frame table. -/
theorem small (h : Building k₀ me pt hi P k) : hi ≤ maxFrames * pgsize := by
  obtain ⟨g, hready⟩ := h.ready
  by_contra hbig
  have hpages : ∀ i : Fin (maxFrames + 1), ∃ j, (k.frametable j).used = true ∧
      ∃ e, k.tables.entry pt (vpn (i * pgsize)) = some e ∧ e.getLsbD pteV = true ∧
        (k.frametable j).pa = pte2pa e := by
    intro i
    have hi' : i.val ≤ maxFrames := Nat.lt_succ_iff.mp i.isLt
    have hlt : i.val * pgsize < trapframe := lt_of_le_of_lt (Nat.mul_le_mul_right _ hi') (by decide)
    have hal : i.val * pgsize % pgsize = 0 := Nat.mul_mod_left _ _
    have haddr := addr_vpn hal (lt_trans hlt (by decide))
    obtain ⟨e, he, hV, -⟩ := h.full (vpn (i * pgsize)) (by
      rw [haddr]
      have := Nat.mul_le_mul_right pgsize hi'
      omega)
    obtain ⟨j, hj, hpa⟩ := hready.inv.frames.covered he (not_special_of_lt hal hlt) hV
    exact ⟨j, hj, e, he, hV, hpa⟩
  choose f hused e he hV hpa using hpages
  have hinj : Function.Injective f := by
    intro i j hij
    have hlt : ∀ i : Fin (maxFrames + 1), i.val * pgsize < trapframe := fun i =>
      lt_of_le_of_lt (Nat.mul_le_mul_right _ (Nat.lt_succ_iff.mp i.isLt)) (by decide)
    have hspecial := fun i : Fin (maxFrames + 1) => not_special_of_lt (Nat.mul_mod_left i.val pgsize) (hlt i)
    have heq := (hready.inv.pages.frame_injective (he i) (hspecial i) (hV i) (he j) (hspecial j) (hV j)
      (by rw [← hpa i, ← hpa j, hij])).2
    have := vpn_injective (Nat.mul_mod_left _ _) (Nat.mul_mod_left _ _)
      (lt_trans (hlt j) (by decide)) (lt_trans (hlt i) (by decide)) heq
    exact Fin.ext (Nat.eq_of_mul_eq_mul_right (by decide) this.symm)
  have hcard := Fintype.card_le_of_injective f hinj
  simp at hcard

theorem lt_trapframe (h : Building k₀ me pt hi P k) : hi < trapframe :=
  lt_of_le_of_lt h.small (by decide)

end Building

/-! ## `uvmalloc` -/

section Grow

variable [SwapStore D] {xperm : Pte} {newsz : Nat}

/-- The new space grows by one page. -/
theorem growPage_building {a : Nat} (hup : upper (growPerm xperm) = 0) (hS : (growPerm xperm).getLsbD pteS = false)
    (hP : ∀ mem, P (vpn a) (mapEntry mem (growPerm xperm))) (h : Building k₀ me pt a P k) :
    Sat (watch (.exec me pt)) (growPage me pt a xperm)
      (fun ok k' => Building k₀ me pt (if ok then a + pgsize else a) P k') k := by
  obtain ⟨g, hready⟩ := h.ready
  have hlt := h.lt_trapframe
  have hempty := h.above _ (not_special_of_lt h.aligned hlt) (addr_vpn h.aligned (lt_trans hlt (by decide))).ge
  apply (growPage_spec hup hS hready h.table (.inr rfl) hempty hlt).mono
  rintro ok k₁ ⟨hready₁, hcalm, hentry⟩
  cases ok with
  | false => exact h.calm hready₁ (hcalm.mono fun _ _ hf => nomatch hf.1)
  | true =>
    obtain ⟨mem, he⟩ := hentry rfl
    exact h.fill hready₁ (hcalm.mono fun _ _ hf => hf.2) hlt he (mapEntry_valid _ _) (hP _)

/-- `uvmalloc` extends the new space, or leaves it as it was. -/
theorem uvmallocLoop_building (hup : upper (growPerm xperm) = 0)
    (hS : (growPerm xperm).getLsbD pteS = false) (hlo : lo % pgsize = 0)
    (hP : ∀ v mem, lo ≤ v.addr → P v (mapEntry mem (growPerm xperm))) (n : Nat) :
    ∀ {k : Kernel D} {a : Nat}, Building k₀ me pt a P k → lo ≤ a →
    Sat (watch (.exec me pt)) (uvmallocLoop me pt lo newsz xperm n a) (fun res k' =>
      (res = newsz ∧ Building k₀ me pt (a + n * pgsize) P k') ∨
        (res = 0 ∧ Building k₀ me pt lo P k')) k := by
  induction n with
  | zero =>
    intro k a h _
    refine Sat.ret (.inl ⟨rfl, ?_⟩)
    rw [Nat.zero_mul]
    exact h
  | succ n ih =>
    intro k a h hle
    have hlt := h.lt_trapframe
    have haddr := addr_vpn h.aligned (lt_trans hlt (by decide))
    rw [uvmallocLoop_succ]
    apply Sat.seq
    apply (growPage_building hup hS (fun mem => hP _ mem (by rw [haddr]; exact hle)) h).mono
    intro ok k₁ h₁
    split
    · next hok =>
        rw [if_pos hok] at h₁
        refine (ih h₁ (by omega)).mono ?_
        rintro res k₃ (⟨rfl, h₃⟩ | h₃)
        · refine .inl ⟨rfl, ?_⟩
          rw [Nat.succ_mul, Nat.add_comm (n * pgsize), ← Nat.add_assoc]
          exact h₃
        · exact .inr h₃
    · next hok =>
        rw [if_neg hok] at h₁
        obtain ⟨g₁, hready₁⟩ := h₁.ready
        apply Sat.seq
        apply (uvmdealloc_spec (watch_allowed id) hready₁ h₁.table hlt.le).mono
        rintro _ k₂ ⟨hready₂, -, hclear⟩
        rw [pgroundup_of_aligned hlo, pgroundup_of_aligned h.aligned] at hclear
        exact Sat.ret (.inr ⟨rfl, h₁.cleared hready₂ hlo hle hclear⟩)

/-- **`uvmalloc`** for a table under construction, for any size. -/
theorem uvmalloc_building {sz : Nat} (hup : upper (growPerm xperm) = 0)
    (hS : (growPerm xperm).getLsbD pteS = false)
    (hP : ∀ v mem, pgroundup sz ≤ v.addr → P v (mapEntry mem (growPerm xperm)))
    (h : Building k₀ me pt (pgroundup sz) P k) :
    Sat (watch (.exec me pt)) (uvmalloc me pt sz newsz xperm) (fun res k' =>
      (res = max sz newsz ∧ Building k₀ me pt (pgroundup res) P k') ∨
        (res = 0 ∧ Building k₀ me pt (pgroundup sz) P k')) k := by
  unfold uvmalloc
  split
  · next hlt =>
      refine Sat.ret (.inl ⟨(max_eq_left hlt.le).symm, h⟩)
  · next hge =>
      have hmono := pgroundup_mono (Nat.not_lt.mp hge)
      have hfit : pgroundup sz + (pgroundup newsz - pgroundup sz) / pgsize * pgsize =
          pgroundup newsz := by
        have h₁ := pgroundup_aligned sz
        have h₂ := pgroundup_aligned newsz
        unfold pgsize at *
        omega
      apply (uvmallocLoop_building hup hS (pgroundup_aligned sz) hP _ h le_rfl).mono
      rintro res k₁ (⟨rfl, h₁⟩ | h₁)
      · rw [hfit] at h₁
        exact .inl ⟨(max_eq_right (Nat.not_lt.mp hge)).symm, h₁⟩
      · exact .inr h₁

end Grow

/-! ## Loading segments -/

/-- User code may access the page. -/
def Accessible : Vpn → Pte → Prop := fun _ e => e.getLsbD pteU = true

namespace Building

theorem setMem (h : Building k₀ me pt hi P k) (pa : Nat) (page : Page) :
    Building k₀ me pt hi P (k.setMem pa page) := by
  obtain ⟨g, hready⟩ := h.ready
  exact h.calm ⟨g, hready.setMem page⟩ (.of_tables (fun _ => rfl) rfl rfl)

/-- A page below the bound has a frame. -/
theorem resident (h : Building k₀ me pt hi P k) {v : Vpn} (hv : v.addr < hi) :
    ∃ e, k.tables.entry pt v = some e ∧ e.getLsbD pteV = true ∧ P v e ∧ pte2pa e ≠ 0 := by
  obtain ⟨g, hready⟩ := h.ready
  obtain ⟨e, he, hV, hP⟩ := h.full v hv
  have hspecial : ¬ Special v := by
    rw [← vpn_addr v]
    exact not_special_of_lt v.addr_aligned (lt_trans hv h.lt_trapframe)
  have hown := (hready.inv.pages.resident he hspecial hV).1
  exact ⟨e, he, hV, hP, hready.inv.ne_zero (by rw [hown]; simp)⟩

end Building

section Load

variable {W : Watch Panic (Eviction D)} {f : ExecFile} {va sz : Nat} {offset : UInt32} {J : Kernel D → Prop}
  (hJ : ∀ {k : Kernel D} {pa : Nat} {page : Page}, J k → J (k.setMem pa page))

include hJ

/-- **`loadseg` finds its pages** when the segment lies below the bound, whatever the file holds. -/
theorem loadsegLoop_building (hva : va % pgsize = 0) (n : Nat) : ∀ {k : Kernel D} {i : Nat},
    Building k₀ me pt hi Accessible k ∧ J k → i % pgsize = 0 → va + i + n * pgsize ≤ hi →
    Sat W (loadsegLoop pt va f offset sz n i) (fun _ k' => Building k₀ me pt hi Accessible k' ∧ J k') k := by
  induction n with
  | zero =>
    intro k i h _ _
    exact Sat.ret h
  | succ n ih =>
    rintro k i ⟨h, hj⟩ hi' hle
    rw [Nat.succ_mul] at hle
    have hlt : va + i < hi := by
      unfold pgsize at hle
      omega
    have hmax : va + i < maxva := lt_trans hlt (lt_trans h.lt_trapframe (by decide))
    have haddr : (vpn (va + i)).addr = va + i :=
      addr_vpn (by unfold pgsize at *; omega) hmax
    obtain ⟨t, ht⟩ := Option.isSome_iff_exists.mp h.table
    obtain ⟨e, he, hV, hU, hne⟩ := h.resident (v := vpn (va + i)) (by rw [haddr]; exact hlt)
    have hnext : ∀ page, Building k₀ me pt hi Accessible (k.setMem (pte2pa e) page) ∧
        J (k.setMem (pte2pa e) page) := fun page => ⟨h.setMem _ _, hJ hj⟩
    have hframe : k.userFrame pt (va + i) = pte2pa e := by
      change e.getLsbD pteU = true at hU
      unfold Kernel.userFrame
      rw [if_neg (Nat.not_le.mpr hmax), he]
      simp [hV, hU]
    unfold loadsegLoop
    apply Sat.seq_run (walkaddr_run ht (va + i))
    rw [hframe, if_neg hne]
    apply Sat.seq_update
    split
    · exact Sat.ret (hnext _)
    · refine ih (hnext _) (by unfold pgsize at *; omega) ?_
      omega

theorem loadseg_building (hva : va % pgsize = 0) (h : Building k₀ me pt hi Accessible k ∧ J k) (off : Nat)
    {filesz : Nat} (hle : va + filesz ≤ hi) :
    Sat W (loadseg pt va f off filesz) (fun _ k' => Building k₀ me pt hi Accessible k' ∧ J k') k := by
  have hhi := h.1.aligned
  have hsz : filesz % 2 ^ 32 ≤ filesz := Nat.mod_le _ _
  apply loadsegLoop_building hJ hva _ h rfl
  unfold pgsize at *
  omega

end Load

theorem flags2perm_spec (flags : Nat) : upper (growPerm (flags2perm flags)) = 0 ∧
    (growPerm (flags2perm flags)).getLsbD pteS = false ∧
    (growPerm (flags2perm flags)).getLsbD pteU = true := by
  unfold flags2perm
  split <;> split <;> decide

/-- The highest end of a segment that is loaded, over `n` program headers from `off` on. -/
def ExecFile.top (f : ExecFile) : Nat → UInt32 → Nat
  | 0, _ => 0
  | n + 1, off =>
    let ph := ProgHdr.ofBytes (f.readi off (UInt32.ofNat ProgHdr.size))
    max (if ph.type = elfProgLoad then ph.vaddr + ph.memsz else 0) (f.top n (off + UInt32.ofNat ProgHdr.size))

/-- The highest end of a segment of the program. -/
def ExecFile.imageTop (f : ExecFile) : Nat :=
  let elf := ElfHdr.ofBytes (f.readi 0 (UInt32.ofNat ElfHdr.size))
  f.top elf.phnum (UInt32.ofNat elf.phoff)

/-- The sizes `kexec` asks for, if the segments end at sizes in `fits`: these, and room for the stack. -/
def Wanted (fits : Nat → Prop) (newsz : Nat) : Prop :=
  fits newsz ∨ ∃ sz, fits sz ∧ newsz = pgroundup sz + (userstack + 1) * pgsize

/-- What an argument about `kexec` under the watch `W` knows beside `Building`: the judgements on
the two calls that take memory hold under `W`, and the relation `J` between the bound of the new
pages and the state is kept, if the segments end at sizes in `fits`. -/
structure Carried [SwapStore D] (W : Watch Panic (Eviction D)) (me : ProcId) (k₀ : Kernel D)
    (J : Nat → Kernel D → Prop) (fits : Nat → Prop) : Prop where
  create : ∀ {Q : Nat → Kernel D → Prop}, Sat (watch .plain) (procPagetable me me) Q k₀ →
    Sat W (procPagetable me me) (fun pt k => Q pt k ∧ J 0 k) k₀
  grow : ∀ {pt sz newsz : Nat} {xperm : Pte} {k : Kernel D} {Q : Nat → Kernel D → Prop}, Wanted fits newsz →
    J (pgroundup sz) k → Sat (watch (.exec me pt)) (uvmalloc me pt sz newsz xperm) Q k →
    Sat W (uvmalloc me pt sz newsz xperm)
      (fun res k' => Q res k' ∧ J (pgroundup (if res = 0 then sz else res)) k') k
  write : ∀ {hi pa : Nat} {page : Page} {k : Kernel D}, J hi k → J hi (k.setMem pa page)
  fits_zero : fits 0

theorem Carried.of_lift [SwapStore D] {W : Watch Panic (Eviction D)}
    (hcreate : ∀ {Q : Nat → Kernel D → Prop}, Sat (watch .plain) (procPagetable me me) Q k₀ →
      Sat W (procPagetable me me) Q k₀)
    (hgrow : ∀ {pt sz newsz : Nat} {xperm : Pte} {k : Kernel D} {Q : Nat → Kernel D → Prop},
      Sat (watch (.exec me pt)) (uvmalloc me pt sz newsz xperm) Q k → Sat W (uvmalloc me pt sz newsz xperm) Q k) :
    Carried W me k₀ (fun _ _ => True) (fun _ => True) :=
  ⟨fun h => (hcreate h).mono fun _ _ hQ => ⟨hQ, trivial⟩,
    fun _ _ h => (hgrow h).mono fun _ _ hQ => ⟨hQ, trivial⟩, fun _ => trivial, trivial⟩

section Segments

variable [SwapStore D] {f : ExecFile} {W : Watch Panic (Eviction D)} {J : Nat → Kernel D → Prop} {fits : Nat → Prop}
  (hW : Carried W me k₀ J fits)

/-- The segments loaded so far end at `sz`. -/
def LoadedTo (k₀ : Kernel D) (me : ProcId) (pt : Nat) (J : Nat → Kernel D → Prop) (fits : Nat → Prop) (sz : Nat)
    (k : Kernel D) : Prop :=
  (Building k₀ me pt (pgroundup sz) Accessible k ∧ J (pgroundup sz) k) ∧ fits sz

include hW

/-- One segment of the file is loaded. -/
theorem loadSegment_building (off : UInt32) {sz n : Nat} (htop : ∀ s ≤ f.top (n + 1) off, fits s)
    (h : LoadedTo k₀ me pt J fits sz k) :
    Sat W (loadSegment me pt f off sz) (fun res k' => LoadedTo k₀ me pt J fits res.1 k') k := by
  unfold loadSegment
  dsimp only
  split
  · exact Sat.ret h
  split
  · exact Sat.ret h
  split
  · exact Sat.ret h
  next hload hfile =>
  split
  · exact Sat.ret h
  split
  · exact Sat.ret h
  next hal =>
  obtain ⟨⟨hb, hj⟩, hsz⟩ := h
  obtain ⟨ph, hph⟩ : ∃ ph, ph = ProgHdr.ofBytes (f.readi off (UInt32.ofNat ProgHdr.size)) := ⟨_, rfl⟩
  rw [← hph] at hload hfile hal ⊢
  have hnew : fits (ph.vaddr + ph.memsz) := by
    refine htop _ ?_
    unfold ExecFile.top
    rw [← hph]
    dsimp only
    rw [if_pos (not_not.mp hload)]
    exact le_max_left _ _
  obtain ⟨hup, hS, hU⟩ := flags2perm_spec ph.flags
  apply Sat.seq
  apply (hW.grow (.inl hnew) hj (uvmalloc_building hup hS (fun v mem _ => ?_) hb)).mono
  · rintro res k₁ ⟨⟨hres, h₁⟩ | ⟨rfl, h₁⟩, hj₁⟩
    · split at hj₁
      · next h0 =>
          -- nothing was asked for
          rw [if_pos h0]
          have hz : sz = 0 := by omega
          rw [h0] at h₁
          exact Sat.ret ⟨⟨hz.symm ▸ h₁, hj₁⟩, hsz⟩
      · next h0 =>
          rw [if_neg h0]
          apply Sat.seq
          refine (loadseg_building hW.write (not_not.mp hal) ⟨h₁, hj₁⟩ _ ?_).mono ?_
          · have := le_pgroundup res
            omega
          · intro ret k₂ h₂
            refine Sat.ret ⟨h₂, ?_⟩
            rw [hres]
            exact (max_choice sz (ph.vaddr + ph.memsz)).elim (fun hm => hm.symm ▸ hsz) fun hm => hm.symm ▸ hnew
    · rw [if_pos rfl] at hj₁ ⊢
      exact Sat.ret ⟨⟨h₁, hj₁⟩, hsz⟩
  · show (mapEntry mem _).getLsbD pteU = true
    rw [mapEntry_flag _ _ (by decide) (by decide), hU]

/-- **Loading the segments** keeps the table in order, for any program headers. -/
theorem loadSegments_building (n : Nat) : ∀ {k : Kernel D} {off : UInt32} {sz : Nat},
    (∀ s ≤ f.top n off, fits s) → LoadedTo k₀ me pt J fits sz k →
    Sat W (loadSegments me pt f n off sz) (fun res k' => LoadedTo k₀ me pt J fits res.1 k') k := by
  induction n with
  | zero =>
    intro k off sz _ h
    exact Sat.ret h
  | succ n ih =>
    intro k off sz htop h
    unfold loadSegments
    apply Sat.seq
    apply (loadSegment_building hW off htop h).mono
    rintro ⟨sz₁, ok⟩ k₁ h₁
    dsimp only
    split
    · exact ih (fun s hs => htop s (hs.trans (le_max_right _ _))) h₁
    · exact Sat.ret h₁

end Segments

/-! ## The stack -/

/-- Above the guard page at `base` user code may read and write. -/
def AboveGuard (base : Nat) : Vpn → Pte → Prop := fun v e =>
  base + pgsize ≤ v.addr → e.getLsbD pteU = true ∧ e.getLsbD pteW = true

/-- `uvmclear` of the guard page. -/
theorem uvmclear_building {W : Watch Panic (Eviction D)} {base : Nat} (hbase : base % pgsize = 0)
    (h : Building k₀ me pt hi (AboveGuard base) k) (hlt : base < hi) :
    Sat W (uvmclear pt base) (fun _ k' => Building k₀ me pt hi (AboveGuard base) k') k := by
  obtain ⟨g, hready⟩ := h.ready
  obtain ⟨t, ht⟩ := Option.isSome_iff_exists.mp h.table
  have hmax : base < maxva := lt_trans hlt (lt_trans h.lt_trapframe (by decide))
  have haddr := addr_vpn hbase hmax
  obtain ⟨e, he, hV, -⟩ := h.full (vpn base) (by rw [haddr]; exact hlt)
  have hspecial := not_special_of_lt hbase (lt_trans hlt h.lt_trapframe)
  have hV' : (e &&& ~~~ bit pteU).getLsbD pteV = true := by
    rw [getLsbD_and_not_bit (by decide), hV]
    decide
  unfold uvmclear
  apply Sat.seq_run (walk_run hmax ht)
  rw [he]
  apply Sat.seq_run (deref_run he)
  apply Sat.of_ok (assign_run _ _)
  have hentry : ∀ r v, (k.tables.setEntry pt (vpn base) (e &&& ~~~ bit pteU)).entry r v =
      if r = pt ∧ v = vpn base then some (e &&& ~~~ bit pteU) else k.tables.entry r v := by
    intro r v
    rw [Tables.entry_setEntry]
    split
    · rw [he]
      rfl
    · rfl
  refine ⟨⟨g, hready.inv.retouch he hV hV' ?_ (upper_and_not_bit e (by decide)), hready.lock⟩,
    h.apart.trans .setEntry, ?_, h.aligned, ?_, ?_, ?_⟩
  · rw [getLsbD_and_not_bit (by decide)]
    simp [pteU, pteS]
  · rw [Kernel.setEntry_tables, Tables.isSome_setEntry]
    exact h.table
  · intro v hv ha
    refine (h.above v hv ha).setEntry ?_
    rintro rfl
    change hi ≤ (vpn base).addr at ha
    omega
  · intro v hv
    show ∃ e', (k.tables.setEntry pt (vpn base) _).entry pt v = some e' ∧ _
    rw [hentry]
    split
    · next heq =>
        refine ⟨_, rfl, hV', fun hge => ?_⟩
        rw [heq.2, haddr] at hge
        unfold pgsize at hge
        omega
    · exact h.full v hv
  · intro v e' hv he' hV₁
    change (k.tables.setEntry pt (vpn base) _).entry pt v = some e' at he'
    rw [hentry, if_neg (by rintro ⟨-, rfl⟩; exact hspecial hv)] at he'
    exact h.special v e' hv he' hV₁

/-- The page above the guard is a stack page. -/
theorem Building.stackPage {base : Nat} (h : Building k₀ me pt (base + pgsize + pgsize) (AboveGuard base) k)
    (hbase : base % pgsize = 0) : ∃ frame, StackPage k pt (base + pgsize) frame := by
  have hlt := h.lt_trapframe
  have hal : (base + pgsize) % pgsize = 0 := by
    unfold pgsize at *
    omega
  have haddr := addr_vpn hal (show base + pgsize < maxva from lt_trans (by unfold pgsize at *; omega)
    (lt_trans hlt (by decide)))
  obtain ⟨e, he, hV, hP, hne⟩ := h.resident (v := vpn (base + pgsize)) (by
    rw [haddr]
    unfold pgsize
    omega)
  obtain ⟨hU, hW⟩ := hP haddr.ge
  refine ⟨pte2pa e, hal, ?_, ⟨e, he, hV, hU, hW, rfl⟩, hne⟩
  exact hlt.le.trans (by decide)

/-! ## Giving up -/

/-- A table that is gone is not under construction any more. -/
theorem Ready.dropExtra {p : ProcId} {r : Nat} (h : Ready ⟨some (p, r), none⟩ g k) (hgone : k.tables r = none) :
    Ready .plain g k := by
  refine ⟨⟨h.inv.free, h.inv.tree, h.inv.trap, h.inv.pages, ?_, fun _ _ hx => by cases hx⟩, h.lock⟩
  refine h.inv.frames.setRoots ?_
  rintro q r' (hr | hx) hsome
  · exact .inl hr
  · cases hx
    rw [hgone] at hsome
    cases hsome

variable [SwapStore D]

/-- **`execBad`** takes the new table down, and nothing of it is left. -/
theorem execBad_spec {W : Watch Panic (Eviction D)} (hW : W.allowed .kfree) {sz : Nat} (hk : Consistent k₀)
    (hnew : k₀.tables pt = none) (h : Building k₀ me pt (pgroundup sz) P k) :
    Sat W (execBad pt sz) (fun res k' => res = -1 ∧ Consistent k') k := by
  obtain ⟨g, hready⟩ := h.ready
  unfold execBad
  apply Sat.seq
  apply (procFreepagetable_spec hW hready h.table
    ((le_pgroundup sz).trans h.lt_trapframe.le) h.above).mono
  rintro _ k₁ ⟨⟨g₁, hready₁⟩, happart, hgone, -⟩
  refine Sat.ret ⟨rfl, ?_⟩
  have hcalm : Calm none (fun _ _ => False) k₀ k₁ := (h.apart.trans happart).calm hnew hgone
  exact hk.calm ⟨g₁, hready₁.dropExtra hgone⟩ hcalm fun _ _ hf => hf.elim

/-! ## Switching over -/

section Switch

omit [SwapStore D]

variable {p : ProcId} {k₂ k₃ : Kernel D}

/-- The table of `p` and the table under construction change places. -/
theorem Ready.swapTables (h : Ready (.exec p pt) g k)
    (hne : ∀ q, q ≠ p → (k.proc q).pagetable ≠ (k.proc p).pagetable) {f : Proc → Proc}
    (hpt : (f (k.proc p)).pagetable = pt) (htf : ∀ q, (f q).trapframe = q.trapframe) :
    Ready (.exec p (k.proc p).pagetable) g (k.updProc p f) := by
  have htraps : (fun q => ((k.updProc p f).proc q).trapframe) = fun q => (k.proc q).trapframe :=
    funext fun q => Kernel.updProc_trapframe (k := k) htf p q
  have hself : ((k.updProc p f).proc p).pagetable = pt := by
    rw [← hpt]
    exact congrArg Proc.pagetable (update_self ..)
  have hother : ∀ q, q ≠ p → (k.updProc p f).proc q = k.proc q := fun q hq => update_of_ne hq _ _
  refine ⟨⟨h.inv.free, h.inv.tree, ?_, h.inv.pages, ?_, ?_⟩, h.lock⟩
  · rw [htraps]
    exact h.inv.trap
  · refine h.inv.frames.setRoots ?_
    rintro q r (hr | hx) -
    · by_cases hq : q = p
      · rw [hr, hq]
        exact .inr rfl
      · rw [hother q hq]
        exact .inl hr
    · obtain ⟨rfl, rfl⟩ : p = q ∧ pt = r := by simpa [Ctx.exec] using hx
      exact .inl hself.symm
  · intro p' r hx q
    obtain ⟨rfl, rfl⟩ : p = p' ∧ (k.proc p).pagetable = r := by simpa [Ctx.exec] using hx
    by_cases hq : q = p
    · rw [hq, hself]
      exact (h.inv.extra p pt rfl p).symm
    · rw [hother q hq]
      exact hne q hq

/-- The table of a process is replaced by the one that was built for it. -/
theorem Spaces.replace (h : Spaces k) (hbuild : Apart pt k k₁) (hnew : k.tables pt = none) (h0 : pt ≠ 0)
    (hold : (k.proc p).pagetable ≠ 0) (hother : ∀ q, q ≠ p → k₂.proc q = k₁.proc q)
    (hself : (k₂.proc p).pagetable = pt) (htab : k₂.tables = k₁.tables) (himage : k₂.image = k₁.image)
    (hspace : SpaceOk k₂.tables k₂.image.trampoline (k₂.proc p))
    (hfree : Apart (k.proc p).pagetable k₂ k₃) (hgone : k₃.tables (k.proc p).pagetable = none) :
    Spaces k₃ := by
  have hne : ∀ q, (k.proc q).pagetable ≠ pt := by
    intro q heq
    have htable := (h.each q).table (by rw [heq]; exact h0)
    rw [heq, hnew] at htable
    cases htable
  have hpt : ∀ q, q ≠ p → (k₃.proc q).pagetable = (k.proc q).pagetable := by
    intro q hq
    rw [(hfree.procs q).pagetable, hother q hq, (hbuild.procs q).pagetable]
  have hself₃ : (k₃.proc p).pagetable = pt := by rw [(hfree.procs p).pagetable, hself]
  have htables : ∀ r, r ≠ pt → r ≠ (k.proc p).pagetable → (k₃.tables r).isSome = (k.tables r).isSome := by
    intro r h₁ h₂
    rw [hfree.tables r h₂, htab, hbuild.tables r h₁]
  refine ⟨?_, ?_, ?_, ?_⟩
  · have hnull := htables 0 h0.symm hold.symm
    rw [h.null] at hnull
    simpa using hnull
  · intro q
    rw [hfree.image]
    by_cases hq : q = p
    · subst hq
      rw [← hself] at hne
      exact hspace.transfer (hfree.procs q) (fun _ => hfree.tables _ (hne q).symm)
        (fun _ v _ => hfree.empty _ v (hne q).symm) fun _ v e => hfree.special _ v e (hne q).symm
    · have hsame : (k.proc q).SameButStats (k₃.proc q) := by
        refine (hbuild.procs q).trans ?_
        rw [← hother q hq]
        exact hfree.procs q
      have hqp : (k.proc q).pagetable ≠ 0 → (k.proc q).pagetable ≠ (k.proc p).pagetable :=
        fun hq0 heq => hq (h.inj q p hq0 heq)
      rw [himage, hbuild.image]
      refine (h.each q).transfer hsame ?_ ?_ ?_
      · exact fun hq0 => htables _ (hne q) (hqp hq0)
      · intro hq0 v _ he
        refine hfree.empty _ v (hqp hq0) ?_
        rw [htab]
        exact hbuild.empty _ v (hne q) he
      · intro hq0 v e hv he hne0
        have he₂ := hfree.special _ v e (hqp hq0) hv he hne0
        rw [htab] at he₂
        exact hbuild.special _ v e (hne q) hv he₂ hne0
  · intro r hr
    by_cases hrp : r = pt
    · exact ⟨p, hself₃.trans hrp.symm⟩
    · have hro : r ≠ (k.proc p).pagetable := by
        rintro rfl
        rw [hgone] at hr
        cases hr
      obtain ⟨q, hq⟩ := h.owner r ((htables r hrp hro).symm.trans hr)
      have hqp : q ≠ p := by
        rintro rfl
        exact hro hq.symm
      exact ⟨q, (hpt q hqp).trans hq⟩
  · intro q q' hq hqq
    by_cases hqp : q = p
    · by_cases hqp' : q' = p
      · rw [hqp, hqp']
      · rw [hqp, hself₃, hpt q' hqp'] at hqq
        exact absurd hqq.symm (hne q')
    · rw [hpt q hqp] at hq hqq
      by_cases hqp' : q' = p
      · rw [hqp', hself₃] at hqq
        exact absurd hqq (hne q)
      · rw [hpt q' hqp'] at hqq
        exact h.inj q q' hq hqq

end Switch

section Commit

variable (path : List UInt8) (entry sz sp : Nat)

omit [SwapStore D]

theorem Kernel.execCommit_self : (k.execCommit me path pt sz entry sp).proc me =
    { k.proc me with name := (lastElem path).take 15, pagetable := pt, sz := sz } :=
  update_self ..

theorem Kernel.execCommit_of_ne {q : ProcId} (hq : q ≠ me) :
    (k.execCommit me path pt sz entry sp).proc q = k.proc q :=
  update_of_ne hq _ _

/-- After the commit the old table is the second one of the process, and still covered by the old size. -/
theorem Building.commit (hk : Consistent k₀) (hme : (k₀.proc me).state ≠ .unused)
    (h : Building k₀ me pt hi P k) (hready : Ready (.exec me pt) g k) :
    Ready (.exec me (k₀.proc me).pagetable) g (k.execCommit me path pt sz entry sp) ∧
    (k.tables (k₀.proc me).pagetable).isSome ∧
    k.tables.EmptyFrom (k₀.proc me).pagetable (pgroundup (k₀.proc me).sz) ∧ (k₀.proc me).pagetable ≠ pt := by
  have hspace := hk.spaces.each me
  have hold := hk.live me hme
  have hpt := fun q => (h.apart.procs q).pagetable
  have hnever := hready.inv.extra me pt rfl me
  rw [hpt] at hnever
  refine ⟨?_, ?_, fun v hv ha => h.apart.empty _ v hnever (hspace.above hold v hv ha), hnever⟩
  · rw [← hpt]
    refine Ready.swapTables (hready.setMem _) (fun q hq heq => ?_) rfl fun _ => rfl
    change (k.proc q).pagetable = (k.proc me).pagetable at heq
    rw [hpt, hpt] at heq
    exact hq (hk.spaces.inj me q hold heq.symm).symm
  · rw [h.apart.tables _ hnever]
    exact hspace.table hold

end Commit

/-- **`execSwitch`** puts the new table in the place of the old one. -/
theorem execSwitch_spec {W : Watch Panic (Eviction D)} (hW : W.allowed .kfree) {path : List UInt8}
    {argv : List KString} {entry sz sp : Nat} (hk : Consistent k₀) (hme : (k₀.proc me).state ≠ .unused)
    (hnew : k₀.tables pt = none) (h : Building k₀ me pt (pgroundup sz) P k) :
    Sat W (execSwitch me path argv entry pt sz sp (k₀.proc me).sz) (fun _ k' => Consistent k') k := by
  obtain ⟨g, hready⟩ := h.ready
  have hpt := fun q => (h.apart.procs q).pagetable
  have hpt0 : pt ≠ 0 := hready.inv.ne_zero (by rw [hready.inv.tree.root pt h.table]; simp)
  obtain ⟨hready₁, htable, habove, -⟩ := h.commit path entry sz sp hk hme hready
  obtain ⟨k₁, hk₁⟩ : ∃ k₁, k₁ = k.execCommit me path pt sz entry sp := ⟨_, rfl⟩
  have hself₁ : k₁.proc me = { k.proc me with name := (lastElem path).take 15, pagetable := pt, sz := sz } := by
    rw [hk₁]
    exact Kernel.execCommit_self path entry sz sp
  have hother₁ : ∀ q, q ≠ me → k₁.proc q = k.proc q := by
    intro q hq
    rw [hk₁]
    exact Kernel.execCommit_of_ne path entry sz sp hq
  have htab₁ : k₁.tables = k.tables := by rw [hk₁]; rfl
  have himage₁ : k₁.image = k.image := by rw [hk₁]; rfl
  have hspace₁ : SpaceOk k₁.tables k₁.image.trampoline (k₁.proc me) := by
    rw [hself₁, htab₁, himage₁]
    refine ⟨(le_pgroundup sz).trans h.lt_trapframe.le, fun _ => h.table, fun _ => h.above, fun _ => h.special,
      fun hu => ?_⟩
    change (k.proc me).state = _ at hu
    rw [(h.apart.procs me).state] at hu
    exact absurd hu hme
  unfold execSwitch
  apply Sat.seq_get
  apply Sat.seq_update
  rw [hpt, ← hk₁]
  rw [← hk₁] at hready₁
  rw [← htab₁] at htable habove
  apply Sat.seq
  apply (procFreepagetable_spec hW hready₁ htable (hk.spaces.each me).size habove).mono
  rintro _ k₂ ⟨⟨g₂, hready₂⟩, hapart₂, hgone, -⟩
  have hspaces₂ := hk.spaces.replace h.apart hnew hpt0 (hk.live me hme) hother₁ (by rw [hself₁]) htab₁ himage₁
    hspace₁ hapart₂ hgone
  have hstate : ∀ q, (k₂.proc q).state = (k₀.proc q).state := by
    intro q
    rw [(hapart₂.procs q).state]
    by_cases hq : q = me
    · rw [hq, hself₁]
      exact (h.apart.procs me).state
    · rw [hother₁ q hq]
      exact (h.apart.procs q).state
  have hcons : Consistent k₂ := by
    refine ⟨⟨g₂, hready₂.dropExtra hgone⟩, hspaces₂, fun q hq => ?_⟩
    rw [(hapart₂.procs q).pagetable]
    by_cases hqm : q = me
    · rw [hqm, hself₁]
      exact hpt0
    · rw [hother₁ q hqm, hpt]
      exact hk.live q (by rw [← hstate]; exact hq)
  apply Sat.seq_update
  apply Sat.ret
  have hspace₂ := hspaces₂.each me
  exact hcons.updProc (f := Proc.resetPaging) (fun _ => rfl) (fun _ => rfl) (by rw [hstate]; exact hme)
    ⟨hspace₂.size, hspace₂.table, hspace₂.above, hspace₂.special, hspace₂.vacant⟩

/-! ## The whole call -/

section Call

variable {W : Watch Panic (Eviction D)} {Q : Int → Kernel D → Prop} {path : List UInt8} {argv : List KString}
  {entry sz : Nat} {J : Nat → Kernel D → Prop} {fits : Nat → Prop} (hW : Carried W me k₀ J fits)

/-- The page above the guard page at `base` holds the arguments. -/
structure Loaded (k₀ : Kernel D) (me : ProcId) (pt base frame : Nat) (argv : List KString) (k : Kernel D) :
    Prop where
  aligned : base % pgsize = 0
  building : Building k₀ me pt (base + pgsize + pgsize) (AboveGuard base) k
  stack : StackPage k pt (base + pgsize) frame
  fits : argvSpace argv ≤ pgsize
  few : argv.length ≤ maxarg
  content : ∃ page, k.mem frame = withArgv (base + pgsize) (base + pgsize + pgsize) argv page

include hW in
/-- **`execStack`** ends in `bad`, or in the switch with the arguments on the stack. -/
theorem execStack_rule (hload : LoadedTo k₀ me pt J fits sz k)
    (hbad : ∀ s k', Building k₀ me pt (pgroundup s) (fun _ _ => True) k' → Sat W (execBad pt s) Q k')
    (hswitch : ∀ base frame k', Loaded k₀ me pt base frame argv k' →
      Sat W (execSwitch me path argv entry pt (base + pgsize + pgsize)
        (base + pgsize + pgsize - argvSpace argv) (k₀.proc me).sz) Q k') :
    Sat W (execStack me path argv entry pt sz) Q k := by
  obtain ⟨⟨h, hj⟩, hsz⟩ := hload
  obtain ⟨base, hbase⟩ : ∃ base, base = pgroundup sz := ⟨_, rfl⟩
  have hal : base % pgsize = 0 := by
    rw [hbase]
    exact pgroundup_aligned sz
  have hround : pgroundup base = base := pgroundup_of_aligned hal
  have hgrow : base + (userstack + 1) * pgsize = base + pgsize + pgsize := by
    unfold userstack pgsize
    omega
  have hround₂ : pgroundup (base + pgsize + pgsize) = base + pgsize + pgsize :=
    pgroundup_of_aligned (by unfold pgsize at *; omega)
  unfold execStack
  apply Sat.seq_get
  rw [(h.apart.procs me).sz]
  dsimp only
  rw [← hbase, hgrow]
  rw [← hbase, ← hround] at h hj
  apply Sat.seq
  refine (hW.grow (.inr ⟨sz, hsz, by rw [← hbase, hgrow]⟩) hj
    (uvmalloc_building (P := fun v e => e.getLsbD pteU = true ∧ (base ≤ v.addr → e.getLsbD pteW = true))
      (by decide) (by decide) (fun v mem _ => ⟨?_, fun _ => ?_⟩) (h.mono ?_))).mono ?_
  · rw [mapEntry_flag _ _ (by decide) (by decide)]
    decide
  · rw [mapEntry_flag _ _ (by decide) (by decide)]
    decide
  · intro v e hv hU
    exact ⟨hU, fun hge => absurd hv (by rw [hround]; exact Nat.not_lt.mpr hge)⟩
  · rintro res k₁ ⟨⟨hres, h₁⟩ | ⟨rfl, h₁⟩, -⟩
    · obtain rfl : res = base + pgsize + pgsize := by
        rw [hres]
        exact max_eq_right (by unfold pgsize; omega)
      rw [hround₂] at h₁
      rw [if_neg (by unfold pgsize; omega),
        show base + pgsize + pgsize - (userstack + 1) * pgsize = base by unfold userstack pgsize; omega,
        show base + pgsize + pgsize - userstack * pgsize = base + pgsize by unfold userstack pgsize; omega]
      apply Sat.seq
      refine (uvmclear_building hal (h₁.mono ?_) (by unfold pgsize; omega)).mono ?_
      · intro v e _ hP hge
        exact ⟨hP.1, hP.2 (by unfold pgsize at hge; omega)⟩
      · intro _ k₂ h₂
        obtain ⟨frame, hstack⟩ := h₂.stackPage hal
        obtain ⟨page, hpage, hrun⟩ := hstack.pushArgv_run me argv
        apply Sat.seq_run hrun
        have h₃ := h₂.setMem frame page
        split
        · next sp hnone =>
            refine hbad _ _ ?_
            rw [hround₂]
            exact h₃.mono fun _ _ _ _ => trivial
        · next sp hsome =>
            obtain ⟨⟨hfits, hfew⟩, rfl⟩ : (argvSpace argv ≤ pgsize ∧ argv.length ≤ maxarg) ∧
                base + pgsize + pgsize - argvSpace argv = sp := by
              split at hsome
              · next hfit => exact ⟨hfit, Option.some.inj hsome⟩
              · cases hsome
            refine hswitch base frame _ ⟨hal, h₃, hstack.setMem page, hfits, hfew, k₂.mem frame, ?_⟩
            rw [← hpage ⟨hfits, hfew⟩]
            exact update_self ..
    · rw [if_pos rfl]
      exact hbad _ _ (h₁.mono fun _ _ _ _ => trivial)

omit [SwapStore D] in
/-- A new table is under construction, still without user pages. -/
theorem Created.building (hk : Consistent k₀) (h0 : pt ≠ 0) (hc : Created (k₀.proc me).trapframe pt k₀ k)
    (hready : Ready .plain g k) : Building k₀ me pt 0 P k := by
  have hne : ∀ q, (k.proc q).pagetable ≠ pt := by
    intro q heq
    rw [(hc.apart.procs q).pagetable] at heq
    have htable := (hk.spaces.each q).table (by rw [heq]; exact h0)
    rw [heq, hc.absent] at htable
    cases htable
  refine ⟨⟨g, ⟨hready.inv.free, hready.inv.tree, hready.inv.trap, hready.inv.pages, ?_, ?_⟩, hready.lock⟩,
    hc.apart, hc.table, rfl, hc.user, fun v hv => absurd hv (Nat.not_lt_zero _), ?_⟩
  · refine hready.inv.frames.setRoots ?_
    rintro q r (hr | hx) -
    · exact .inl hr
    · cases hx
  · intro p r hx q
    obtain ⟨rfl, rfl⟩ : me = p ∧ pt = r := by simpa [Ctx.exec] using hx
    exact hne q
  · intro v e hv he hV
    rw [(hc.apart.procs me).trapframe]
    exact hc.special v e hv he hV

/-- **`kexec`** fails before it has a table, or with one in `bad`, or it switches over. -/
theorem kexec_rule {ip : Option ExecFile} (hW : Carried W me k J fits)
    (hfits : ∀ f, ip = some f → ∀ s ≤ f.imageTop, fits s) (hk : Consistent k)
    (hfail : ∀ k', Consistent k' → Q (-1) k')
    (hbad : ∀ pt s k', k.tables pt = none → Building k me pt (pgroundup s) (fun _ _ => True) k' →
      Sat W (execBad pt s) Q k')
    (hswitch : ∀ pt base frame entry k', k.tables pt = none → Loaded k me pt base frame argv k' →
      Sat W (execSwitch me path argv entry pt (base + pgsize + pgsize)
        (base + pgsize + pgsize - argvSpace argv) (k.proc me).sz) Q k') :
    Sat W (kexec me path ip argv) Q k := by
  obtain ⟨g, hready⟩ := hk.ready
  unfold kexec
  cases ip with
  | none => exact Sat.ret (hfail k hk)
  | some f =>
    dsimp only
    split
    · exact Sat.ret (hfail k hk)
    split
    · exact Sat.ret (hfail k hk)
    apply Sat.seq
    apply (hW.create (procPagetable_spec hready)).mono
    rintro pt k₁ ⟨⟨⟨g₁, hready₁⟩, ⟨rfl, hcalm⟩ | ⟨h0, hcreated⟩⟩, hj₁⟩
    · rw [if_pos rfl]
      exact Sat.ret (hfail k₁ (hk.calm ⟨g₁, hready₁⟩ hcalm fun _ _ => False.elim))
    · rw [if_neg h0]
      apply Sat.seq
      have h₁ : Building k me pt (pgroundup 0) Accessible k₁ := hcreated.building hk h0 hready₁
      apply (loadSegments_building hW _ (hfits f rfl) ⟨⟨h₁, hj₁⟩, hW.fits_zero⟩).mono
      rintro ⟨sz, ok⟩ k₂ h₂
      dsimp only
      split
      · exact execStack_rule hW h₂ (fun s k' => hbad pt s k' hcreated.absent)
          fun base frame k' => hswitch pt base frame _ k' hcreated.absent
      · exact hbad pt sz k₂ hcreated.absent (h₂.1.1.mono fun _ _ _ _ => trivial)

end Call

end Xv6
