import Xv6.Vm.CopyStr
import Xv6.Vm.Exec

/-!
# The argument stack

`kexec` pushes the argument strings on the stack page of the new address space, each rounded up to 16
bytes, and then the array of pointers to them. The first part says what ends up in one page, with no
kernel around it; the second part that `pushArgv` writes exactly that when it fits, and otherwise gives
up.
-/

namespace Xv6

open TraceM Function List

/-! ## Bytes at addresses -/

/-- The bytes from address `a` on are `bytes`. -/
def Reads (byte : Nat → Option UInt8) (a : Nat) (bytes : List UInt8) : Prop :=
  ∀ i b, bytes[i]? = some b → byte (a + i) = some b

/-- The 64-bit word at an address. -/
def wordAt (byte : Nat → Option UInt8) (a : Nat) : Option Nat :=
  ((List.range 8).mapM fun i => byte (a + i)).map leNat

section Bytes

variable {byte byte' : Nat → Option UInt8} {a : Nat} {xs ys : List UInt8}

theorem Reads.mono (h : Reads byte a xs) (hb : ∀ i, i < xs.length → byte' (a + i) = byte (a + i)) :
    Reads byte' a xs := by
  intro i b hi
  rw [hb i (List.getElem?_eq_some_iff.mp hi).1]
  exact h i b hi

theorem Reads.left (h : Reads byte a (xs ++ ys)) : Reads byte a xs := by
  intro i b hi
  apply h i b
  rw [List.getElem?_append_left (List.getElem?_eq_some_iff.mp hi).1, hi]

theorem Reads.right (h : Reads byte a (xs ++ ys)) : Reads byte (a + xs.length) ys := by
  intro i b hi
  rw [Nat.add_assoc]
  apply h _ b
  rw [List.getElem?_append_right (Nat.le_add_right _ _), Nat.add_sub_cancel_left, hi]

@[simp] theorem length_leBytes (n v : Nat) : (leBytes n v).length = n := by
  induction n generalizing v with
  | zero => rfl
  | succ n ih => simp [leBytes, ih]

/-- The bytes of a number give it back. -/
theorem leNat_leBytes (n v : Nat) : leNat (leBytes n v) = v % 256 ^ n := by
  induction n generalizing v with
  | zero => simp [leBytes, leNat, Nat.mod_one]
  | succ n ih =>
    rw [leBytes, leNat, ih, Nat.pow_succ, Nat.mul_comm _ 256, Nat.mod_mul]
    simp

theorem mapM_of_reads {byte : Nat → Option UInt8} (bytes : List UInt8) : ∀ {a : Nat},
    Reads byte a bytes → ((List.range' 0 bytes.length).mapM fun i => byte (a + i)) = some bytes := by
  induction bytes with
  | nil =>
    intro a _
    rfl
  | cons b bytes ih =>
    intro a h
    have hb : byte a = some b := h 0 b rfl
    have hrest : Reads byte (a + 1) bytes := by
      intro i c hi
      rw [Nat.add_assoc, Nat.add_comm 1 i]
      exact h (i + 1) c hi
    have hshift : List.range' 1 bytes.length = (List.range' 0 bytes.length).map (1 + ·) := by
      rw [map_add_range']
    simp only [length_cons, List.range'_succ, Nat.zero_add]
    rw [hshift]
    simp only [mapM_cons, Nat.add_zero, hb, mapM_map, Function.comp_def, ← Nat.add_assoc,
      ih hrest]
    rfl

theorem wordAt_of_reads {v : Nat} (h : Reads byte a (leBytes 8 v)) (hv : v < 2 ^ 64) :
    wordAt byte a = some v := by
  have hlen : (leBytes 8 v).length = 8 := length_leBytes 8 v
  have hm := mapM_of_reads _ h
  rw [hlen] at hm
  unfold wordAt
  rw [range_eq_range', hm, Option.map_some, leNat_leBytes, Nat.mod_eq_of_lt (show v < 256 ^ 8 from hv)]

@[simp] theorem length_words (ps : List Nat) : (words ps).length = 8 * ps.length := by
  induction ps with
  | nil => rfl
  | cons p ps ih =>
    simp only [words, flatMap_cons, length_append, length_leBytes, length_cons] at ih ⊢
    omega

/-- The words of an array, one after the other. -/
theorem wordAt_of_words (ps : List Nat) : ∀ {a : Nat}, Reads byte a (words ps) →
    ∀ i p, ps[i]? = some p → p < 2 ^ 64 → wordAt byte (a + 8 * i) = some p := by
  induction ps with
  | nil =>
    intro a _ i p hi
    cases hi
  | cons q ps ih =>
    intro a h i p hi hp
    have hsplit : words (q :: ps) = leBytes 8 q ++ words ps := rfl
    rw [hsplit] at h
    cases i with
    | zero =>
      obtain rfl : q = p := Option.some.inj hi
      exact wordAt_of_reads h.left hp
    | succ i =>
      have := ih (h.right) i p hi hp
      rw [length_leBytes] at this
      rw [Nat.mul_succ, Nat.add_comm (8 * i), ← Nat.add_assoc]
      exact this

end Bytes

/-! ## One page -/

/-- The bytes of a page that stands at the address `base`. -/
def pageByte (page : Page) (base a : Nat) : Option UInt8 :=
  if base ≤ a ∧ a < base + pgsize then some (page (pageOffset a)) else none

section Page

variable {page : Page} {base a b : Nat} {xs ys : List UInt8}

theorem pageByte_in (h₁ : base ≤ a) (h₂ : a < base + pgsize) :
    pageByte page base a = some (page (pageOffset a)) := if_pos ⟨h₁, h₂⟩

theorem pageOffset_sub (hbase : base % pgsize = 0) (h₁ : base ≤ a) (h₂ : a < base + pgsize) :
    (pageOffset a).val = a - base := by
  show a % pgsize = a - base
  unfold pgsize at *
  omega

/-- Bytes are read back as they were written. -/
theorem pageByte_write (hbase : base % pgsize = 0) (h₁ : base ≤ a) (hfit : a + xs.length ≤ base + pgsize) :
    Reads (pageByte (writeBytes page (a - base) xs) base) a xs := by
  intro i c hi
  obtain ⟨hlt, rfl⟩ := List.getElem?_eq_some_iff.mp hi
  have hoff := pageOffset_sub (a := a + i) hbase (by omega) (by omega)
  have hin : a - base ≤ (pageOffset (a + i)).val ∧ (pageOffset (a + i)).val - (a - base) < xs.length := by
    omega
  rw [pageByte_in (by omega) (by omega)]
  unfold writeBytes
  have hidx : (pageOffset (a + i)).val - (a - base) = i := by omega
  rw [dif_pos hin, get_eq_getElem]
  simp only [hidx]

/-- Bytes written elsewhere do not matter. -/
theorem Reads.write (h : Reads (pageByte page base) a xs) (hbase : base % pgsize = 0) (hb : base ≤ b)
    (hapart : a + xs.length ≤ b ∨ b + ys.length ≤ a) :
    Reads (pageByte (writeBytes page (b - base) ys) base) a xs := by
  apply h.mono
  intro i hi
  unfold pageByte
  split
  · next hin =>
      have hoff := pageOffset_sub hbase hin.1 hin.2
      rw [writeBytes, dif_neg]
      omega
  · rfl

end Page

/-! ## The layout -/

/-- The next multiple of 16. -/
def up16 (n : Nat) : Nat := (n + 15) / 16 * 16

/-- The room the strings take. -/
def stringSpace (argv : List KString) : Nat := (argv.map fun s => up16 s.stored.length).sum

/-- The room the strings and the array of pointers take. -/
def argvSpace (argv : List KString) : Nat := stringSpace argv + up16 (8 * (argv.length + 1))

/-- Where the strings go below `sp`. -/
def pointers : List KString → Nat → List Nat
  | [], _ => []
  | s :: argv, sp => (sp - up16 s.stored.length) :: pointers argv (sp - up16 s.stored.length)

/-- The stack page after the strings are copied to it. -/
def withStrings (base : Nat) : List KString → Nat → Page → Page
  | [], _, page => page
  | s :: argv, sp, page => withStrings base argv (sp - up16 s.stored.length)
      (writeBytes page (sp - up16 s.stored.length - base) s.stored)

theorem up16_spec (n : Nat) : n ≤ up16 n ∧ up16 n < n + 16 ∧ up16 n % 16 = 0 := by
  unfold up16
  omega

theorem stringSpace_cons (s : KString) (argv : List KString) :
    stringSpace (s :: argv) = up16 s.stored.length + stringSpace argv := rfl

theorem stringSpace_aligned (argv : List KString) : stringSpace argv % 16 = 0 := by
  induction argv with
  | nil => rfl
  | cons s argv ih =>
    have := (up16_spec s.stored.length).2.2
    rw [stringSpace_cons]
    omega

@[simp] theorem length_pointers (argv : List KString) (sp : Nat) :
    (pointers argv sp).length = argv.length := by
  induction argv generalizing sp with
  | nil => rfl
  | cons s argv ih => simp [pointers, ih]

/-- **The strings in a page**, from `top` down to `sp`: each at its pointer, below all earlier ones. -/
structure Strings (byte : Nat → Option UInt8) (top sp : Nat) (argv : List KString) (ptrs : List Nat) :
    Prop where
  each : ∀ (i : Nat) (s : KString) (p : Nat), argv[i]? = some s → ptrs[i]? = some p → p % 16 = 0 ∧ sp ≤ p ∧
    p + s.stored.length ≤ top ∧ Reads byte p s.stored
  apart : ∀ (i j p : Nat) (s : KString) (q : Nat), i < j → ptrs[i]? = some p → argv[j]? = some s →
    ptrs[j]? = some q → q + s.stored.length ≤ p

section Layout

variable {base top sp : Nat} {page : Page} {argv : List KString}

theorem Strings.mono {byte byte' : Nat → Option UInt8} {ptrs : List Nat} (h : Strings byte top sp argv ptrs)
    (hb : ∀ p xs, sp ≤ p → p + xs.length ≤ top → Reads byte p xs → Reads byte' p xs) :
    Strings byte' top sp argv ptrs := by
  refine ⟨?_, h.apart⟩
  intro i s p hs hp
  obtain ⟨hal, hle, htop, hreads⟩ := h.each i s p hs hp
  exact ⟨hal, hle, htop, hb p _ hle htop hreads⟩

/-- What lies above the strings is not written. -/
theorem withStrings_above (hbase : base % pgsize = 0) (argv : List KString) : ∀ {sp : Nat} {page : Page}
    {a : Nat} {xs : List UInt8}, base + stringSpace argv ≤ sp → sp ≤ a →
    Reads (pageByte page base) a xs → Reads (pageByte (withStrings base argv sp page) base) a xs := by
  induction argv with
  | nil =>
    intro sp page a xs _ _ h
    exact h
  | cons s argv ih =>
    intro sp page a xs hroom ha h
    rw [stringSpace_cons] at hroom
    have hup := (up16_spec s.stored.length).1
    apply ih (by omega) (by omega)
    exact h.write hbase (by omega) (.inr (by omega))

/-- The strings are where they were put. -/
theorem withStrings_strings (hbase : base % pgsize = 0) (argv : List KString) : ∀ (sp : Nat) (page : Page),
    sp % 16 = 0 → base + stringSpace argv ≤ sp → sp ≤ base + pgsize →
    Strings (pageByte (withStrings base argv sp page) base) sp (sp - stringSpace argv) argv
      (pointers argv sp) := by
  induction argv with
  | nil =>
    intro sp page _ _ _
    refine ⟨?_, ?_⟩
    · intro i s p hs
      cases hs
    · intro i j p s q _ hp
      cases hp
  | cons s argv ih =>
    intro sp page hal hroom hle
    rw [stringSpace_cons] at hroom ⊢
    obtain ⟨hup, -, hup16⟩ := up16_spec s.stored.length
    have hrest := ih (sp - up16 s.stored.length)
      (writeBytes page (sp - up16 s.stored.length - base) s.stored) (by omega) (by omega) (by omega)
    refine ⟨?_, ?_⟩
    · intro i t p ht hp
      cases i with
      | zero =>
        obtain rfl : s = t := Option.some.inj ht
        obtain rfl : sp - up16 s.stored.length = p := Option.some.inj hp
        refine ⟨by omega, by omega, by omega, ?_⟩
        -- later strings lie below
        apply withStrings_above hbase argv (by omega) le_rfl
        exact pageByte_write hbase (by omega) (by omega)
      | succ i =>
        obtain ⟨h16, hlow, htop, hreads⟩ := hrest.each i t p ht hp
        exact ⟨h16, by omega, by omega, hreads⟩
    · intro i j p t q hij hp ht hq
      cases j with
      | zero => omega
      | succ j =>
        cases i with
        | zero =>
          obtain rfl : sp - up16 s.stored.length = p := Option.some.inj hp
          exact (hrest.each j t q ht hq).2.2.1
        | succ i => exact hrest.apart i j p t q (by omega) hp ht hq

/-- **The argument stack** in `[base, top)` with the array of pointers at `sp`: the array ends with a null
pointer, the strings lie above it and do not overlap. -/
structure ArgStack (byte : Nat → Option UInt8) (base top sp : Nat) (argv : List KString) (ptrs : List Nat) :
    Prop where
  aligned : sp % 16 = 0
  base_le : base ≤ sp
  sp_lt : sp < top
  count : ptrs.length = argv.length
  pointer : ∀ (i p : Nat), ptrs[i]? = some p → wordAt byte (sp + 8 * i) = some p
  null : wordAt byte (sp + 8 * argv.length) = some 0
  strings : Strings byte top (sp + 8 * (argv.length + 1)) argv ptrs

/-- The page after the array is copied, too. -/
def withArgv (base top : Nat) (argv : List KString) (page : Page) : Page :=
  writeBytes (withStrings base argv top page) (top - argvSpace argv - base) (words (pointers argv top ++ [0]))

/-- The page that `kexec` writes holds the argument stack. -/
theorem withArgv_argStack (hbase : base % pgsize = 0) (hmax : base + pgsize < 2 ^ 64)
    (hroom : argvSpace argv ≤ pgsize) :
    ArgStack (pageByte (withArgv base (base + pgsize) argv page) base) base (base + pgsize)
      (base + pgsize - argvSpace argv) argv (pointers argv (base + pgsize)) := by
  obtain ⟨hup, -, hup16⟩ := up16_spec (8 * (argv.length + 1))
  have hal := stringSpace_aligned argv
  have htop : (base + pgsize) % 16 = 0 := by
    unfold pgsize at *
    omega
  have hspace : argvSpace argv = stringSpace argv + up16 (8 * (argv.length + 1)) := rfl
  have hlen : (words (pointers argv (base + pgsize) ++ [0])).length = 8 * (argv.length + 1) := by simp
  have hstr := withStrings_strings hbase argv _ page htop (by omega) le_rfl
  have harray : Reads (pageByte (withArgv base (base + pgsize) argv page) base)
      (base + pgsize - argvSpace argv) (words (pointers argv (base + pgsize) ++ [0])) :=
    pageByte_write hbase (by omega) (by omega)
  have hword := wordAt_of_words _ harray
  refine ⟨by omega, by omega, by omega, length_pointers _ _, ?_, ?_, ?_⟩
  · intro i p hp
    have hi := (List.getElem?_eq_some_iff.mp hp).1
    have hlt : p < 2 ^ 64 := by
      rw [length_pointers] at hi
      have := (hstr.each i _ p (List.getElem?_eq_getElem hi) hp).2.2.1
      omega
    exact hword i p (by rw [List.getElem?_append_left hi, hp]) hlt
  · have := hword argv.length 0 (by simp) (by decide)
    exact this
  · refine ⟨?_, hstr.apart⟩
    intro i s p hs hp
    obtain ⟨h16, hlow, hhi, hreads⟩ := hstr.each i s p hs hp
    exact ⟨h16, by omega, hhi, hreads.write hbase (by omega) (.inr (by omega))⟩

end Layout

/-! ## Pushing -/

variable {D : Type} {k : Kernel D} {me : ProcId} {pt base frame sp : Nat}

/-- The stack page at `base` of the table `pt` is in memory, in `frame`, and user code may write it. -/
structure StackPage (k : Kernel D) (pt base frame : Nat) : Prop where
  aligned : base % pgsize = 0
  below : base + pgsize ≤ maxva
  entry : ∃ e, k.tables.entry pt (vpn base) = some e ∧ e.getLsbD pteV = true ∧ e.getLsbD pteU = true ∧
    e.getLsbD pteW = true ∧ pte2pa e = frame
  ne_zero : frame ≠ 0

theorem pushed_of_le {n : Nat} (hsp : sp % 16 = 0) (hn : n ≤ sp) (hlt : sp < 2 ^ 64) :
    pushed sp n = sp - up16 n := by
  have hsub : sub64 sp n = sp - n := by
    unfold sub64
    omega
  unfold pushed up16
  rw [hsub]
  omega

/-- A stack pointer that wraps around leaves the address space. -/
theorem pushed_of_lt {n : Nat} (hn : sp < n) (hlt : n < 2 ^ 32) : 2 ^ 63 ≤ pushed sp n := by
  have hsub : sub64 sp n = sp + 2 ^ 64 - n := by
    unfold sub64
    omega
  unfold pushed
  rw [hsub]
  omega

namespace StackPage

theorem setMem (h : StackPage k pt base frame) (page : Page) : StackPage (k.setMem frame page) pt base frame :=
  ⟨h.aligned, h.below, h.entry, h.ne_zero⟩

theorem userFrame (h : StackPage k pt base frame) {a : Nat} (h₁ : base ≤ a) (h₂ : a < base + pgsize) :
    k.userFrame pt a = frame := by
  obtain ⟨e, he, hV, hU, -, hpa⟩ := h.entry
  have hdown : pgrounddown a = base := by
    have := h.aligned
    unfold pgrounddown pgsize at *
    omega
  have hbelow := h.below
  rw [← Kernel.userFrame_pgrounddown, hdown]
  unfold Kernel.userFrame
  rw [if_neg (by unfold pgsize at hbelow; omega), he]
  simp [hV, hU, hpa]

/-- What user code reads in the stack page. -/
theorem userByte (h : StackPage k pt base frame) {a : Nat} (h₁ : base ≤ a) (h₂ : a < base + pgsize) :
    k.userByte pt a = pageByte (k.mem frame) base a := by
  unfold Kernel.userByte
  rw [h.userFrame h₁ h₂, if_neg h.ne_zero, pageByte_in h₁ h₂]

variable [SwapStore D]

/-- `copyout` to the stack page. -/
theorem copyout_run (me : ProcId) (h : StackPage k pt base frame) {a : Nat} {bytes : List UInt8} (h₁ : base ≤ a)
    (hfit : a + bytes.length ≤ base + pgsize) (hpos : 0 < bytes.length) :
    copyout me pt a bytes k =
      .ok (0, k.setMem frame (writeBytes (k.mem frame) (a - base) bytes), []) := by
  obtain ⟨e, he, hV, hU, hW, hpa⟩ := h.entry
  obtain ⟨t, ht⟩ := isSome_of_entry he
  have hbelow := h.below
  have hmax : base < maxva := by
    unfold pgsize at hbelow
    omega
  have hdown : pgrounddown a = base := by
    have := h.aligned
    unfold pgrounddown pgsize at *
    omega
  cases bytes with
  | nil => cases hpos
  | cons b bs =>
    have hmin : min (pgsize - (a - base)) (b :: bs).length = (b :: bs).length := by omega
    unfold copyout copyoutLoop
    dsimp only
    rw [hdown, if_neg (Nat.not_le.mpr hmax), bind_of_ok (walkaddr_run ht base),
      h.userFrame le_rfl (by unfold pgsize; omega), if_neg h.ne_zero, pure_bind_apply, if_neg h.ne_zero,
      bind_of_ok (walk_run hmax ht), he]
    dsimp only [Option.map_some]
    rw [bind_of_ok (deref_run he), if_neg (by rw [hW]; simp), modify_bind_apply, hmin, take_length,
      drop_length]
    unfold copyoutLoop
    rfl

/-- **Pushing bytes** succeeds exactly when they fit. -/
theorem pushBytes_run (me : ProcId) (h : StackPage k pt base frame) {bytes : List UInt8} (hsp : sp % 16 = 0)
    (hhigh : sp ≤ base + pgsize) (hpos : 0 < bytes.length) (hlt : bytes.length < 2 ^ 32) :
    pushBytes me pt base sp bytes k =
      if base + up16 bytes.length ≤ sp then .ok (some (sp - up16 bytes.length), k.setMem frame
        (writeBytes (k.mem frame) (sp - up16 bytes.length - base) bytes), [])
      else .ok (none, k, []) := by
  obtain ⟨hup, hupl, hup16⟩ := up16_spec bytes.length
  have hbase := h.aligned
  have hbelow := h.below
  have hmax : maxva = 2 ^ 38 := rfl
  unfold pushBytes
  by_cases hwrap : bytes.length ≤ sp
  · rw [pushed_of_le hsp hwrap (by omega)]
    by_cases hfit : base + up16 bytes.length ≤ sp
    · rw [if_pos hfit, if_neg (by omega), bind_of_ok (copyout_run me h (by omega) (by omega) hpos),
        if_neg (by decide)]
      rfl
    · rw [if_neg hfit, if_pos (by unfold pgsize at hbase; omega)]
      rfl
  · -- the stack pointer wrapped around, so it is above `stackbase` but not an address
    have hbig := pushed_of_lt (Nat.not_le.mp hwrap) hlt
    rw [if_neg (by omega), if_neg (by omega)]
    have hout : copyout me pt (pushed sp bytes.length) bytes k = .ok (-1, k, []) := by
      cases bytes with
      | nil => cases hpos
      | cons b bs =>
        unfold copyout copyoutLoop
        dsimp only
        rw [if_pos]
        · rfl
        · unfold pgrounddown pgsize
          omega
    rw [bind_of_ok hout, if_pos (by decide)]
    rfl

/-- The loop over the strings: it ends with all of them in the page, or gives up. -/
theorem pushArgs_run (me : ProcId) (argv : List KString) : ∀ {k : Kernel D} (sp : Nat) (ustack : List Nat),
    StackPage k pt base frame → sp % 16 = 0 → base ≤ sp → sp ≤ base + pgsize →
    ustack.length ≤ maxarg →
    ∃ page, (base + stringSpace argv ≤ sp ∧ ustack.length + argv.length ≤ maxarg →
      page = withStrings base argv sp (k.mem frame)) ∧
    pushArgs me pt base argv sp ustack k =
      .ok (if base + stringSpace argv ≤ sp ∧ ustack.length + argv.length ≤ maxarg then
        some (sp - stringSpace argv, ustack ++ pointers argv sp) else none, k.setMem frame page, []) := by
  induction argv with
  | nil =>
    intro k sp ustack _ _ hlow _ hlen
    have hself : k.setMem frame (k.mem frame) = k := by
      unfold Kernel.setMem
      rw [update_eq_self]
    refine ⟨k.mem frame, fun _ => rfl, ?_⟩
    rw [hself, if_pos ⟨hlow, hlen⟩]
    simp [pushArgs, stringSpace, pointers]
  | cons s argv ih =>
    intro k sp ustack h hsp hlow hhigh hlen
    obtain ⟨hup, -, hup16⟩ := up16_spec s.stored.length
    have hpos : 0 < s.stored.length := by simp [KString.stored]
    have hlt : s.stored.length < 2 ^ 32 := by
      have := s.short
      simp only [KString.stored, length_append, length_singleton]
      omega
    have hself : k.setMem frame (k.mem frame) = k := by
      unfold Kernel.setMem
      rw [update_eq_self]
    have hcons := stringSpace_cons s argv
    unfold pushArgs
    by_cases hfull : maxarg ≤ ustack.length
    · refine ⟨k.mem frame, fun hc => ?_, ?_⟩
      · simp only [length_cons] at hc
        omega
      · rw [if_pos hfull, hself, if_neg]
        · rfl
        · simp only [length_cons]
          omega
    · rw [if_neg hfull]
      have hpush := pushBytes_run me h hsp hhigh hpos hlt
      by_cases hfit : base + up16 s.stored.length ≤ sp
      · rw [if_pos hfit] at hpush
        rw [bind_of_ok hpush]
        dsimp only
        obtain ⟨page, hpage, hrun⟩ := ih (sp - up16 s.stored.length) (ustack ++ [sp - up16 s.stored.length])
          (h.setMem (writeBytes (k.mem frame) (sp - up16 s.stored.length - base) s.stored))
          (by omega) (by omega) (by omega) (by simp; omega)
        have hcond : (base + stringSpace argv ≤ sp - up16 s.stored.length ∧
            (ustack ++ [sp - up16 s.stored.length]).length + argv.length ≤ maxarg) ↔
            (base + stringSpace (s :: argv) ≤ sp ∧ ustack.length + (s :: argv).length ≤ maxarg) := by
          simp only [length_append, length_cons, length_nil, hcons]
          omega
        refine ⟨page, fun hc => ?_, ?_⟩
        · rw [hpage (hcond.mpr hc)]
          simp [withStrings, Kernel.setMem]
        · rw [hrun]
          have hmem : (k.setMem frame (writeBytes (k.mem frame) (sp - up16 s.stored.length - base)
              s.stored)).setMem frame page = k.setMem frame page := by
            simp [Kernel.setMem]
          have hres : some (sp - up16 s.stored.length - stringSpace argv,
              ustack ++ [sp - up16 s.stored.length] ++ pointers argv (sp - up16 s.stored.length)) =
              some (sp - stringSpace (s :: argv), ustack ++ pointers (s :: argv) sp) := by
            rw [hcons, Nat.sub_sub]
            simp [pointers]
          rw [hmem, hres]
          simp only [hcond]
      · rw [if_neg hfit] at hpush
        refine ⟨k.mem frame, fun hc => ?_, ?_⟩
        · omega
        · rw [bind_of_ok hpush, hself, if_neg (by omega)]
          rfl

/-- **`pushArgv`** writes the argument stack when it fits in the page and there are few enough strings, and
gives up otherwise. Nothing but the stack page changes. -/
theorem pushArgv_run (me : ProcId) (h : StackPage k pt base frame) (argv : List KString) :
    ∃ page, (argvSpace argv ≤ pgsize ∧ argv.length ≤ maxarg →
      page = withArgv base (base + pgsize) argv (k.mem frame)) ∧
    pushArgv me pt base (base + pgsize) argv k =
      .ok (if argvSpace argv ≤ pgsize ∧ argv.length ≤ maxarg then
        some (base + pgsize - argvSpace argv) else none, k.setMem frame page, []) := by
  have hbase := h.aligned
  have hbelow := h.below
  have hmax : maxva = 2 ^ 38 := rfl
  have hspace : argvSpace argv = stringSpace argv + up16 (8 * (argv.length + 1)) := rfl
  have halign := stringSpace_aligned argv
  have htop : (base + pgsize) % 16 = 0 := by
    unfold pgsize at *
    omega
  obtain ⟨page, hpage, hrun⟩ := pushArgs_run me argv _ [] h htop
    (Nat.le_add_right _ _) le_rfl (Nat.zero_le _)
  unfold pushArgv
  rw [bind_of_ok hrun]
  by_cases hc : base + stringSpace argv ≤ base + pgsize ∧ ([] : List Nat).length + argv.length ≤ maxarg
  · have hlen : (words (pointers argv (base + pgsize) ++ [0])).length = 8 * (argv.length + 1) := by simp
    have hargs : argv.length ≤ 32 := by simpa using hc.2
    have hpush := @pushBytes_run D _ pt base frame (base + pgsize - stringSpace argv) _ me (h.setMem page)
      (words (pointers argv (base + pgsize) ++ [0])) (by omega) (by omega) (by omega) (by omega)
    rw [hlen] at hpush
    rw [if_pos hc]
    dsimp only [nil_append]
    by_cases hfit : argvSpace argv ≤ pgsize
    · rw [if_pos (by omega)] at hpush
      refine ⟨withArgv base (base + pgsize) argv (k.mem frame), fun _ => rfl, ?_⟩
      rw [hpush, if_pos ⟨hfit, hargs⟩]
      have hsub : base + pgsize - stringSpace argv - up16 (8 * (argv.length + 1)) =
          base + pgsize - argvSpace argv := by omega
      simp only [hsub, withArgv, ← hpage hc, Kernel.setMem, update_self, update_idem]
    · rw [if_neg (by omega)] at hpush
      refine ⟨page, fun hf => absurd hf.1 hfit, ?_⟩
      rw [hpush, if_neg fun hf => hfit hf.1]
  · rw [if_neg hc]
    refine ⟨page, fun hf => ?_, ?_⟩
    · simp only [length_nil, Nat.zero_add] at hc
      omega
    · rw [if_neg]
      · rfl
      · simp only [length_nil, Nat.zero_add] at hc
        omega

end StackPage

end Xv6
