import Mathlib.Algebra.GroupWithZero.Nat

/-!
# Sizes and panics

The constants of `kernel/param.h`, `kernel/memlayout.h`, `kernel/riscv.h` and `kernel/fs.h` that the
model depends on, and the places at which the kernel panics.
-/

namespace Xv6

/-- `NPROC`: the number of slots of the process table. -/
abbrev nproc : Nat := 64

/-- `PGSIZE`: the bytes of a page. -/
abbrev pgsize : Nat := 4096

/-- `BSIZE`: the bytes of a disk block. -/
abbrev bsize : Nat := 1024

/-- `MAX_FRAMES`: the entries of the frame table. -/
abbrev maxFrames : Nat := 64

/-- `MAX_SWAP`: the slots of the swap table. -/
abbrev maxSwap : Nat := 16384

instance : NeZero nproc := ⟨by decide⟩

instance : NeZero maxSwap := ⟨by decide⟩

/-- A slot of the process table; a `struct proc *` of the source points to one of these. -/
abbrev ProcId := Fin nproc

/-- The content of a physical page. -/
abbrev Page := Fin pgsize → UInt8

/-- The content of a disk block. -/
abbrev Block := Fin bsize → UInt8

/-- Where the swap disk calls `panic`. The source's message stands behind each constructor. -/
inductive DiskPanic where
  | physWrite            -- "phys_write: out of range"
  | physRead             -- "phys_read: out of range"
  | diskSubmit           -- "disk_submit: queue full"
  | swapOutPage          -- "swap_out_page: invalid slot"
  | swapInPage           -- "swap_in_page: invalid slot"
  deriving DecidableEq, Repr

/-- Where the rest of the modelled kernel calls `panic`. -/
inductive Panic where
  | acquire              -- "acquire"
  | release              -- "release"
  | kfree                -- "kfree"
  | walk                 -- "walk"
  | mappagesVa           -- "mappages: va not aligned"
  | mappagesSizeAligned  -- "mappages: size not aligned"
  | mappagesSize         -- "mappages: size"
  | mappagesRemap        -- "mappages: remap"
  | uvmunmap             -- "uvmunmap: not aligned"
  | freewalkLeaf         -- "freewalk: leaf"
  | uvmclear             -- "uvmclear"
  | loadseg              -- "loadseg: address should exist"
  | oomVmfault           -- "oom vmfault\n"
  | swapin               -- "swapin: invalid swap index or slot not in use"
  | gridlock             -- "frametable_alloc: complete gridlock"
  | kerneltrap           -- "kerneltrap": a null or wild pointer was followed
  | disk (e : DiskPanic)
  deriving DecidableEq, Repr

end Xv6
