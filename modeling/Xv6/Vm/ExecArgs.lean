import Xv6.Vm.ExecEvict

/-!
# The arguments of a new program

When `kexec` succeeds, the argument stack is in the new address space. It is written before the switch, so
what remains to be seen is that the release of the old table does not touch the stack page and the
trapframe: the release only gives pages of the old table back (`Draws`).
-/

namespace Xv6

open TraceM Function

variable {D : Type} {k k' k₁ : Kernel D} {me : ProcId} {pt base frame r : Nat}

/-! ## Reading the arguments -/

section Reading

variable {byte byte' : Nat → Option UInt8} {top sp : Nat} {argv : List KString} {ptrs : List Nat}

theorem mapM_mono {f f' : Nat → Option UInt8} (h : ∀ i b, f i = some b → f' i = some b) (l : List Nat) :
    ∀ {bytes : List UInt8}, l.mapM f = some bytes → l.mapM f' = some bytes := by
  induction l with
  | nil => exact fun hb => hb
  | cons i l ih =>
    intro bytes hb
    rw [List.mapM_cons] at hb ⊢
    obtain ⟨b, hi, hb⟩ := Option.bind_eq_some_iff.mp hb
    obtain ⟨bs, hl, hb⟩ := Option.bind_eq_some_iff.mp hb
    rw [h i b hi, ih hl]
    exact hb

theorem wordAt_mono (h : ∀ a b, byte a = some b → byte' a = some b) {a w : Nat} (hw : wordAt byte a = some w) :
    wordAt byte' a = some w := by
  unfold wordAt at *
  obtain ⟨bytes, hb, rfl⟩ := Option.map_eq_some_iff.mp hw
  rw [mapM_mono (fun i b => h (a + i) b) _ hb]
  rfl

/-- An argument stack can be read wherever its bytes can. -/
theorem ArgStack.mono (h : ArgStack byte base top sp argv ptrs) (hb : ∀ a b, byte a = some b → byte' a = some b) :
    ArgStack byte' base top sp argv ptrs where
  aligned := h.aligned
  base_le := h.base_le
  sp_lt := h.sp_lt
  count := h.count
  pointer i p hp := wordAt_mono hb (h.pointer i p hp)
  null := wordAt_mono hb h.null
  strings := h.strings.mono fun _ _ _ _ hr i b hi => hb _ _ (hr i b hi)

/-- The stack page is read by user code as it stands in memory. -/
theorem StackPage.argStack (h : StackPage k pt base frame) {page : Page}
    (hmem : k.mem frame = withArgv base (base + pgsize) argv page) (hfits : argvSpace argv ≤ pgsize) :
    ArgStack (k.userByte pt) base (base + pgsize) (base + pgsize - argvSpace argv) argv
      (pointers argv (base + pgsize)) := by
  have hbelow := h.below
  have hmax : maxva = 2 ^ 38 := rfl
  have hstack : ArgStack (pageByte (withArgv base (base + pgsize) argv page) base) base (base + pgsize) _ argv _ :=
    withArgv_argStack h.aligned (by omega) hfits
  refine hstack.mono ?_
  intro a b hb
  have hin : base ≤ a ∧ a < base + pgsize := by
    unfold pageByte at hb
    split at hb
    · next hin => exact hin
    · cases hb
  rw [h.userByte hin.1 hin.2, hmem]
  exact hb

/-- `a1` in the trapframe. -/
theorem execTrapframe_a1 (page : Page) (entry : Nat) (hsp : sp < 2 ^ 64) :
    wordAt (pageByte (execTrapframe page entry sp) 0) tfA1 = some sp := by
  have hlen := length_leBytes 8
  refine wordAt_of_reads ?_ hsp
  unfold execTrapframe
  refine Reads.write (b := tfSp) (Reads.write (b := tfEpc) (pageByte_write rfl (Nat.zero_le _) ?_) rfl
    (Nat.zero_le _) ?_) rfl (Nat.zero_le _) ?_
  · rw [hlen]
    decide
  · rw [hlen, hlen]
    decide
  · rw [hlen]
    decide

end Reading

/-! ## What a release leaves alone -/

section Release

variable {c : Ctx} {g : Ledger} {H : List Nat}

/-- A stack page of another table stays. -/
theorem StackPage.draws (h : StackPage k pt base frame) (hd : Draws r H H k k') (hne : pt ≠ r) :
    StackPage k' pt base frame := by
  obtain ⟨e, he, hV, hU, hW, hpa⟩ := h.entry
  have hkept := hd.others pt (vpn base) hne
  rw [he, Option.map_some, Option.map_eq_some_iff] at hkept
  obtain ⟨e', he', hA⟩ := hkept
  exact ⟨h.aligned, h.below, ⟨e', he', (getLsbD_of_withoutA hA (by decide) (by decide)).trans hV,
    (getLsbD_of_withoutA hA (by decide) (by decide)).trans hU,
    (getLsbD_of_withoutA hA (by decide) (by decide)).trans hW, (pte2pa_of_withoutA hA).trans hpa⟩, h.ne_zero⟩

/-- User pages of other tables are not in the pool of a table. -/
theorem Inv.not_pool_of_page (h : Inv c g k) {a : Nat} {v : Vpn} (ha : g a = .page pt v) (hne : pt ≠ r) :
    ¬ k.Pool r [] a := by
  rintro (hf | hf | hf)
  · rw [h.free.free a hf] at ha
    cases ha
  · cases hf
  · rcases h.own_of_pageOf hf with hown | ⟨i₂, hown⟩ | ⟨i₂, i₁, hown⟩ | ⟨w, hown⟩
    · rw [ha] at hown
      cases hown
    · rw [ha] at hown
      cases hown
    · rw [ha] at hown
      cases hown
    · rw [ha] at hown
      cases hown
      exact hne rfl

/-- Neither are trapframes. -/
theorem Inv.not_pool_of_trapframe (h : Inv c g k) (p : ProcId) : ¬ k.Pool r [] (k.proc p).trapframe := by
  have hown : g (k.proc p).trapframe ≠ .idle → g (k.proc p).trapframe = .trapframe p :=
    fun hidle => h.trap.trap p (h.ne_zero hidle)
  rintro (hf | hf | hf)
  · have hfree := h.free.free _ hf
    rw [hown (by rw [hfree]; simp)] at hfree
    cases hfree
  · cases hf
  · rcases h.own_of_pageOf hf with ho | ⟨i₂, ho⟩ | ⟨i₂, i₁, ho⟩ | ⟨w, ho⟩ <;>
      · rw [hown (by rw [ho]; simp)] at ho
        cases ho

end Release

/-! ## The call -/

variable [SwapStore D] {path : List UInt8} {ip : Option ExecFile} {argv : List KString}

/-- The arguments of the program of `me` are on its stack, and `a1` points to them. -/
def HasArgs (k : Kernel D) (me : ProcId) (argv : List KString) : Prop :=
  ∃ sp ptrs, wordAt (pageByte (k.mem (k.proc me).trapframe) 0) tfA1 = some sp ∧
    ArgStack (k.userByte (k.proc me).pagetable) ((k.proc me).sz - userstack * pgsize) (k.proc me).sz sp argv
      ptrs

/-- The switch to the new image keeps the arguments on its stack. -/
theorem execSwitch_args {k₀ : Kernel D} {entry : Nat} (hk : Consistent k₀)
    (hme : (k₀.proc me).state ≠ .unused) (h : Loaded k₀ me pt base frame argv k) :
    Sat .eventless (execSwitch me path argv entry pt (base + pgsize + pgsize)
      (base + pgsize + pgsize - argvSpace argv) (k₀.proc me).sz)
      (fun res k' => res = argv.length ∧ HasArgs k' me argv) k := by
  have hb := h.building
  obtain ⟨g, hready⟩ := hb.ready
  obtain ⟨page, hpage⟩ := h.content
  obtain ⟨top, htop⟩ : ∃ top, top = base + pgsize + pgsize := ⟨_, rfl⟩
  obtain ⟨sp, hsp⟩ : ∃ sp, sp = top - argvSpace argv := ⟨_, rfl⟩
  have hbelow := h.stack.below
  have hmax : maxva = 2 ^ 38 := rfl
  have hsp64 : sp < 2 ^ 64 := by omega
  rw [← htop, ← hsp]
  obtain ⟨hready₁, htable, habove, hne⟩ := hb.commit path entry top sp hk hme hready
  have hself : (k.execCommit me path pt top entry sp).proc me = _ := Kernel.execCommit_self path entry top sp
  obtain ⟨k₁, hk₁⟩ : ∃ k₁, k₁ = k.execCommit me path pt top entry sp := ⟨_, rfl⟩
  rw [← hk₁] at hready₁ hself
  have htab₁ : k₁.tables = k.tables := by rw [hk₁]; rfl
  -- the stack page is neither the trapframe nor a page of the old table
  obtain ⟨e, he, hV, -, -, hpa⟩ := h.stack.entry
  have hown : g frame = .page pt (vpn (base + pgsize)) := by
    rw [← hpa]
    refine (hready.inv.pages.resident he (not_special_of_lt h.stack.aligned ?_) hV).1
    have := hb.lt_trapframe
    omega
  have htf : frame ≠ (k.proc me).trapframe := by
    intro heq
    have htrap := hready.inv.trap.trap me (by rw [← heq]; exact h.stack.ne_zero)
    rw [← heq, hown] at htrap
    cases htrap
  have hmem₁ : k₁.mem frame = withArgv (base + pgsize) top argv page := by
    rw [hk₁, htop, ← hpage]
    exact update_of_ne htf _ _
  have htrap₁ : k₁.mem (k.proc me).trapframe = execTrapframe (k.mem (k.proc me).trapframe) entry sp := by
    rw [hk₁]
    exact update_self ..
  have hstack₁ : StackPage k₁ pt (base + pgsize) frame := by
    refine ⟨h.stack.aligned, hbelow, ?_, h.stack.ne_zero⟩
    rw [htab₁]
    exact h.stack.entry
  unfold execSwitch
  apply Sat.seq_get
  apply Sat.seq_update
  rw [(hb.apart.procs me).pagetable, ← hk₁]
  apply Sat.seq
  rw [← htab₁] at htable habove
  apply (procFreepagetable_spec trivial hready₁ htable (hk.spaces.each me).size habove).mono
  rintro _ k₂ ⟨-, -, -, hdraws⟩
  have hd := hdraws []
  apply Sat.seq_update
  refine Sat.ret ⟨rfl, sp, pointers argv top, ?_⟩
  have hself₂ : (k₂.updProc me Proc.resetPaging).proc me = (k₂.proc me).resetPaging := update_self ..
  have hproc₂ := hd.procs me
  rw [hself] at hproc₂
  have htf₂ : (k₂.proc me).trapframe = (k.proc me).trapframe := by rw [hproc₂]
  have hsz₂ : (k₂.proc me).sz = top := by rw [hproc₂]
  have hpt₂ : (k₂.proc me).pagetable = pt := by rw [hproc₂]
  rw [hself₂]
  show wordAt (pageByte (k₂.mem (k₂.proc me).trapframe) 0) tfA1 = some sp ∧
    ArgStack (k₂.userByte (k₂.proc me).pagetable) ((k₂.proc me).sz - userstack * pgsize) (k₂.proc me).sz sp argv _
  rw [htf₂, hsz₂, hpt₂]
  refine ⟨?_, ?_⟩
  · have hsafe := hready₁.inv.not_pool_of_trapframe (r := (k₀.proc me).pagetable) me
    rw [hself] at hsafe
    rw [hd.mem _ hsafe, htrap₁]
    exact execTrapframe_a1 _ _ hsp64
  · have hstack₂ := hstack₁.draws hd hne.symm
    have hmem₂ : k₂.mem frame = withArgv (base + pgsize) (base + pgsize + pgsize) argv page := by
      rw [hd.mem frame (hready₁.inv.not_pool_of_page hown hne.symm), hmem₁, htop]
    have hargs := hstack₂.argStack hmem₂ h.fits
    rw [← htop, ← hsp] at hargs
    rw [show top - userstack * pgsize = base + pgsize by rw [htop]; unfold userstack pgsize; omega]
    exact hargs

/-- **The argument stack.** When `kexec` succeeds without an eviction, it returns the number of arguments,
and `a1` points to the array of pointers to them on the stack of the new program; arguments that do not fit
in the stack page make it fail. -/
theorem kexec_argument_stack {res : Int} (hk : Consistent k) (hme : (k.proc me).state ≠ .unused)
    (hrun : kexec me path ip argv k = .ok (res, k', [])) :
    (res ≠ -1 → res = argv.length ∧ HasArgs k' me argv) ∧ (pgsize < argvSpace argv → res = -1) := by
  refine Sat.holds_eventless (Q := fun (res : Int) k' => (res ≠ -1 → res = argv.length ∧ HasArgs k' me argv) ∧
    (pgsize < argvSpace argv → res = -1))
    (kexec_rule (.of_lift (fun h => h.eventless) fun h => h.eventless) (fun _ _ _ _ => trivial) hk ?_ ?_ ?_) hrun
  · exact fun _ _ => ⟨fun hf => absurd rfl hf, fun _ => rfl⟩
  · intro pt s k₁ hnew h₁
    refine (execBad_spec trivial hk hnew h₁).mono ?_
    rintro res k₂ ⟨rfl, -⟩
    exact ⟨fun hf => absurd rfl hf, fun _ => rfl⟩
  · intro pt base frame entry k₁ hnew hload
    refine (execSwitch_args hk hme hload).mono ?_
    intro res k₂ hargs
    exact ⟨fun _ => hargs, fun hf => absurd hload.fits (Nat.not_le.mpr hf)⟩

/-- An argument of the size of the stack. -/
def Tight.long : KString := ⟨List.replicate pgsize 1, by decide +kernel, by decide +kernel⟩

/-- With twenty frames `kexec` succeeds with two arguments and fails with one that is too long. -/
theorem kexec_argument_stack_tight :
    (∃ k', kexec 0 [97] (some Tight.prog) (Tight.args ++ Tight.args) (Tight.loaded 20) = .ok (2, k', []) ∧
      HasArgs k' 0 (Tight.args ++ Tight.args)) ∧
    ∃ k', kexec 0 [97] (some Tight.prog) [Tight.long] (Tight.loaded 20) = .ok (-1, k', []) := by
  have hcons := Tight.loaded_consistent (n := 20) (by decide)
  have hused := Tight.loaded_used (n := 20) (by decide)
  constructor
  · obtain ⟨_, k', _, hrun, rfl, rfl⟩ : Returns (kexec 0 [97] (some Tight.prog) (Tight.args ++ Tight.args))
        (fun res _ l => res = 2 ∧ l = []) (Tight.loaded 20) := by decide +kernel
    exact ⟨k', hrun, ((kexec_argument_stack hcons hused hrun).1 (by decide)).2⟩
  · obtain ⟨_, k', _, hrun, rfl⟩ : Returns (kexec 0 [97] (some Tight.prog) [Tight.long])
        (fun _ _ l => l = []) (Tight.loaded 20) := by decide +kernel
    obtain rfl := (kexec_argument_stack hcons hused hrun).2 (by decide +kernel)
    exact ⟨k', hrun⟩

end Xv6
