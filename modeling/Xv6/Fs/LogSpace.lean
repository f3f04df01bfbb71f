import Xv6.Fs.Log
import Xv6.Lib.Counting
import Xv6.Lib.Transition

/-!
# Space in the log

`begin_op` admits an operation only if the log has room for `MAXOPBLOCKS` more blocks of it and of
every operation under way. Operations interleave freely; each holds at most one buffer at a time and
logs at most `MAXOPBLOCKS` blocks, each as often as it likes.

The reservation works: what is logged and what the operations may still log fit into the log
(`Ops.Inv.space`), so that it never holds more than `LOGBLOCKS` blocks. But `LOGBLOCKS` blocks are
one too many. `log_write` tests for a full log before it looks for the block in it, and a full log
pins all `NBUF` buffers, so that `commit` finds none for its copies.
-/

namespace Xv6

open TraceM Transition Function Finset

/-- An operation under way: the blocks it has logged, and the buffer it holds, with its block. -/
structure Op where
  written : Finset Nat
  held : Option (BufId × Nat)

/-- The file system and the operations of the processes. -/
structure Ops where
  fs : Fs
  op : ProcId → Option Op

inductive OpAct where
  | beginOp (p : ProcId)
  | bread (p : ProcId) (b : Nat)
  | logWrite (p : ProcId) (data : Block)
  | brelse (p : ProcId)
  | endOp (p : ProcId)

/-- New contents for a buffer, and `log_write`. -/
def logData (i : BufId) (data : Block) : FsM Unit := do
  modify fun s => s.setData i data
  logWrite i

namespace Ops

def setOp (c : Ops) (p : ProcId) (o : Option Op) (fs : Fs) : Ops := ⟨fs, update c.op p o⟩

/-- The steps of the operations. `bread` stands for the reference that `bget` takes: an operation
that waits for the lock of its buffer holds a reference too. -/
inductive Step : Ops → OpAct → Ops → Prop
  | beginOp {c : Ops} {p : ProcId} {fs : Fs} {l : List DiskWrite} (hp : c.op p = none)
      (ha : c.fs.log.Admits) (hrun : beginOp c.fs = .ok ((), fs, l)) :
      Step c (.beginOp p) (c.setOp p (some ⟨∅, none⟩) fs)
  | bread {c : Ops} {p : ProcId} {w : Finset Nat} {b : Nat} {i : BufId} {fs : Fs}
      {l : List DiskWrite} (hp : c.op p = some ⟨w, none⟩)
      (hrun : bread rootdev b c.fs = .ok (i, fs, l)) :
      Step c (.bread p b) (c.setOp p (some ⟨w, some (i, b)⟩) fs)
  | logWrite {c : Ops} {p : ProcId} {w : Finset Nat} {b : Nat} {i : BufId} {data : Block} {fs : Fs}
      {l : List DiskWrite} (hp : c.op p = some ⟨w, some (i, b)⟩) (hb : Home c.fs.log.start b)
      (hlt : b < 2 ^ 32) (hw : (insert b w).card ≤ maxOpBlocks)
      (hrun : logData i data c.fs = .ok ((), fs, l)) :
      Step c (.logWrite p data) (c.setOp p (some ⟨insert b w, some (i, b)⟩) fs)
  | brelse {c : Ops} {p : ProcId} {w : Finset Nat} {b : Nat} {i : BufId} {fs : Fs}
      {l : List DiskWrite} (hp : c.op p = some ⟨w, some (i, b)⟩)
      (hrun : brelse i c.fs = .ok ((), fs, l)) :
      Step c (.brelse p) (c.setOp p (some ⟨w, none⟩) fs)
  | endOp {c : Ops} {p : ProcId} {w : Finset Nat} {fs : Fs} {l : List DiskWrite}
      (hp : c.op p = some ⟨w, none⟩) (hrun : endOp c.fs = .ok ((), fs, l)) :
      Step c (.endOp p) (c.setOp p none fs)

end Ops

/-! ## What operations account for -/

namespace Op

/-- The references of an operation to a block. -/
def holds (b : Nat) : Option Op → Nat
  | some ⟨_, some (_, x)⟩ => if b = x then 1 else 0
  | _ => 0

/-- The blocks that an operation may still log. -/
def room : Option Op → Nat
  | some o => maxOpBlocks - o.written.card
  | none => 0

def active : Option Op → Nat
  | some _ => 1
  | none => 0

@[simp] theorem active_some (o : Op) : active (some o) = 1 := rfl

@[simp] theorem active_none : active none = 0 := rfl

@[simp] theorem room_some (o : Op) : room (some o) = maxOpBlocks - o.written.card := rfl

@[simp] theorem room_none : room none = 0 := rfl

@[simp] theorem holds_none (b : Nat) : holds b none = 0 := rfl

@[simp] theorem holds_free (b : Nat) (w : Finset Nat) : holds b (some ⟨w, none⟩) = 0 := rfl

@[simp] theorem holds_held (b : Nat) (w : Finset Nat) (i : BufId) (x : Nat) :
    holds b (some ⟨w, some (i, x)⟩) = if b = x then 1 else 0 := rfl

theorem room_le (o : Option Op) : room o ≤ active o * maxOpBlocks := by
  cases o with
  | none => exact Nat.zero_le _
  | some o =>
    rw [room_some, active_some]
    omega

end Op

namespace Ops

variable {c c' : Ops} {p : ProcId} {a : OpAct}

/-- All references to a block: one if it is in the log, and those of the operations. -/
def refs (c : Ops) (b : Nat) : Nat := pins c.fs.log.lh b + ∑ p, Op.holds b (c.op p)

/-- **The invariant**: the references are those of the log and the operations, and the log has room
for what the operations may still log. -/
structure Inv (c : Ops) : Prop where
  ok : c.fs.Ok c.refs c.fs.log.lh
  held : ∀ {p w i b}, c.op p = some ⟨w, some (i, b)⟩ → ∃ v, c.fs.Caches i b v
  nodup : c.fs.log.lh.Nodup
  home : ∀ b ∈ c.fs.log.lh, Home c.fs.log.start b
  small : ∀ b ∈ c.fs.log.lh, b < 2 ^ 32
  idle : c.fs.log.committing = false
  count : c.fs.log.outstanding = ∑ p, Op.active (c.op p)
  logged : ∀ {p o b}, c.op p = some o → b ∈ o.written → b ∈ c.fs.log.lh
  space : c.fs.log.lh.length + ∑ p, Op.room (c.op p) ≤ logBlocks

theorem setOp_op_self (o : Option Op) (fs : Fs) : (c.setOp p o fs).op p = o :=
  update_self ..

theorem setOp_op_of_ne {q : ProcId} (o : Option Op) (fs : Fs) (h : q ≠ p) :
    (c.setOp p o fs).op q = c.op q := update_of_ne h ..

/-- The operations of the other processes go on as they are. -/
theorem setOp_cases {q : ProcId} {o : Option Op} {fs : Fs} {r : Op}
    (h : (c.setOp p o fs).op q = some r) : (q = p ∧ o = some r) ∨ (q ≠ p ∧ c.op q = some r) := by
  by_cases hq : q = p
  · subst hq
    rw [setOp_op_self] at h
    exact .inl ⟨rfl, h⟩
  · rw [setOp_op_of_ne o fs hq] at h
    exact .inr ⟨hq, h⟩

/-- References before and after an operation changes. -/
theorem refs_setOp (o : Option Op) (fs : Fs) (b : Nat) :
    (c.setOp p o fs).refs b + Op.holds b (c.op p) =
      pins fs.log.lh b + ∑ q, Op.holds b (c.op q) + Op.holds b o := by
  have := Counting.sum_update (Op.holds b) c.op p o
  unfold refs setOp
  dsimp only
  omega

theorem refs_ne_zero_of_held {w : Finset Nat} {i : BufId} {b : Nat}
    (h : c.op p = some ⟨w, some (i, b)⟩) : c.refs b ≠ 0 := by
  have hle := Counting.le_sum (Op.holds b) c.op p
  have hone : Op.holds b (c.op p) = 1 := by
    rw [h]
    exact if_pos rfl
  unfold refs
  omega

theorem Inv.one_le_outstanding (h : c.Inv) {o : Op} (hp : c.op p = some o) :
    1 ≤ c.fs.log.outstanding := by
  have hle := Counting.le_sum Op.active c.op p
  rw [hp, ← h.count] at hle
  exact hle

/-- A step that neither logs blocks nor starts or ends an operation. -/
theorem Inv.hold (h : c.Inv) {w : Finset Nat} {x y : Option (BufId × Nat)} {fs : Fs}
    (hp : c.op p = some ⟨w, x⟩) (hlog : fs.log = c.fs.log)
    (hok : fs.Ok (c.setOp p (some ⟨w, y⟩) fs).refs c.fs.log.lh)
    (hold : ∀ {q r i b}, (c.setOp p (some ⟨w, y⟩) fs).op q = some ⟨r, some (i, b)⟩ →
      ∃ v, fs.Caches i b v) : (c.setOp p (some ⟨w, y⟩) fs).Inv := by
  have hactive := Counting.sum_update Op.active c.op p (some ⟨w, y⟩)
  have hroom := Counting.sum_update Op.room c.op p (some ⟨w, y⟩)
  rw [hp] at hactive hroom
  simp only [Op.active_some, Op.room_some] at hactive hroom
  have hcount := h.count
  have hspace := h.space
  refine ⟨?_, hold, ?_, ?_, ?_, ?_, ?_, ?_, ?_⟩
  all_goals simp only [setOp, hlog]
  · exact hok
  · exact h.nodup
  · exact h.home
  · exact h.small
  · exact h.idle
  · omega
  · intro q o b hq hb
    rcases @setOp_cases _ _ _ _ fs _ hq with ⟨rfl, ho⟩ | ⟨-, hq⟩
    · cases ho
      exact h.logged hp hb
    · exact h.logged hq hb
  · omega

/-! ## The steps -/

/-- An operation takes a buffer. -/
theorem Inv.bread (h : c.Inv) {w : Finset Nat} {b : Nat} {i : BufId} {fs : Fs} {l : List DiskWrite}
    (hp : c.op p = some ⟨w, none⟩) (hrun : Xv6.bread rootdev b c.fs = .ok (i, fs, l)) :
    (c.setOp p (some ⟨w, some (i, b)⟩) fs).Inv := by
  obtain ⟨i', fs', hrun', hok, hc, hsame, hkept⟩ := Fs.bread_spec h.ok (Fs.bread_room h.ok hrun)
  cases hrun'.symm.trans hrun
  have hrefs : (c.setOp p (some ⟨w, some (i, b)⟩) fs).refs = addRef c.refs b := by
    funext x
    have := refs_setOp (c := c) (p := p) (some ⟨w, some (i, b)⟩) fs x
    rw [hp, hsame.log] at this
    simp only [Op.holds_free, Op.holds_held] at this
    unfold addRef
    split at this <;> simp_all [refs]
  refine h.hold hp hsame.log (by rw [hrefs]; exact hok) ?_
  intro q r j x hq
  rcases setOp_cases hq with ⟨-, ho⟩ | ⟨-, hq⟩
  · cases ho
    exact ⟨_, hc⟩
  · obtain ⟨v, hv⟩ := h.held hq
    exact ⟨v, hkept hv (refs_ne_zero_of_held hq)⟩

/-- An operation gives its buffer back. -/
theorem Inv.brelse (h : c.Inv) {w : Finset Nat} {b : Nat} {i : BufId} {fs : Fs} {l : List DiskWrite}
    (hp : c.op p = some ⟨w, some (i, b)⟩) (hrun : Xv6.brelse i c.fs = .ok ((), fs, l)) :
    (c.setOp p (some ⟨w, none⟩) fs).Inv := by
  obtain ⟨v, hc⟩ := h.held hp
  have hdrop : ∀ fs' : Fs, fs'.log = c.fs.log →
      (c.setOp p (some ⟨w, none⟩) fs').refs = dropRef c.refs b := by
    intro fs' hlog
    funext x
    have := refs_setOp (c := c) (p := p) (some ⟨w, none⟩) fs' x
    rw [hp, hlog] at this
    simp only [Op.holds_free, Op.holds_held] at this
    unfold dropRef
    split at this
    · next hx =>
        rw [if_pos hx]
        unfold refs at this ⊢
        omega
    · next hx =>
        rw [if_neg hx]
        unfold refs at this ⊢
        omega
  obtain ⟨fs', hrun', hok, hsame, hkept⟩ := Fs.brelse_spec h.ok hc.has fun {x} hx => by
    rw [← hdrop c.fs rfl]
    have hpin := pins_ne_zero.mpr hx
    unfold refs setOp
    dsimp only
    omega
  cases hrun'.symm.trans hrun
  refine h.hold hp hsame.log (by rw [hdrop fs hsame.log]; exact hok) ?_
  intro q r j x hq
  rcases setOp_cases hq with ⟨-, ho⟩ | ⟨-, hq⟩
  · cases ho
  · obtain ⟨v, hv⟩ := h.held hq
    exact ⟨v, hkept hv⟩

/-- `begin_op` sets blocks of the log aside. -/
theorem Inv.beginOp (h : c.Inv) {fs : Fs} {l : List DiskWrite} (hp : c.op p = none)
    (ha : c.fs.log.Admits) (hrun : Xv6.beginOp c.fs = .ok ((), fs, l)) :
    (c.setOp p (some ⟨∅, none⟩) fs).Inv := by
  cases hrun
  have hactive := Counting.sum_update Op.active c.op p (some ⟨∅, none⟩)
  have hroom := Counting.sum_update Op.room c.op p (some ⟨∅, none⟩)
  rw [hp] at hactive hroom
  simp only [Op.active_some, Op.active_none, Op.room_some, Op.room_none, card_empty]
    at hactive hroom
  have hcount := h.count
  have hreserve : ∑ q, Op.room (c.op q) ≤ c.fs.log.outstanding * maxOpBlocks := by
    rw [hcount, sum_mul]
    exact sum_le_sum fun q _ => Op.room_le (c.op q)
  have hrefs : (c.setOp p (some ⟨∅, none⟩) c.fs).refs = c.refs := by
    funext x
    have := refs_setOp (c := c) (p := p) (some ⟨∅, none⟩) c.fs x
    rw [hp] at this
    simpa [refs] using this
  have hadm := ha.2
  refine ⟨?_, ?_, h.nodup, h.home, h.small, h.idle, ?_, ?_, ?_⟩
  · refine Fs.Ok.setLog ?_ _
    show c.fs.Ok (c.setOp p (some ⟨∅, none⟩) c.fs).refs _
    rw [hrefs]
    exact h.ok
  · intro q r j x hq
    rcases setOp_cases hq with ⟨-, ho⟩ | ⟨-, hq⟩
    · cases ho
    · obtain ⟨v, hv⟩ := h.held hq
      exact ⟨v, hv.has, hv.valid, hv.data⟩
  · show c.fs.log.outstanding + 1 = ∑ q, Op.active (update c.op p _ q)
    omega
  · intro q o b hq hb
    rcases setOp_cases hq with ⟨-, ho⟩ | ⟨-, hq⟩
    · cases ho
      exact absurd hb (notMem_empty b)
    · exact h.logged hq hb
  · show c.fs.log.lh.length + ∑ q, Op.room (update c.op p _ q) ≤ logBlocks
    rw [Nat.add_mul] at hadm
    omega

/-- **`log_write`** of a buffer that an operation holds returns while the log is not full. -/
theorem Inv.logData_returns (h : c.Inv) {w : Finset Nat} {b : Nat} {i : BufId}
    (hp : c.op p = some ⟨w, some (i, b)⟩) (data : Block) (hlen : c.fs.log.lh.length < logBlocks) :
    ∃ fs, logData i data c.fs = .ok ((), fs, []) ∧
      fs.Ok (pinned c.fs.log.lh c.refs b) (absorb c.fs.log.lh b) ∧
      fs.log = { c.fs.log with lh := absorb c.fs.log.lh b } ∧
      ∀ {j x v}, c.fs.Caches j x v → ∃ v', fs.Caches j x v' := by
  obtain ⟨v, hc⟩ := h.held hp
  obtain ⟨hown, hother⟩ := Fs.setData_caches hc data (t := c.fs.setData i data) rfl
  have hdirty : (c.fs.setData i data).Ok c.refs (absorb c.fs.log.lh b) := by
    refine h.ok.dirtied hc data (fun hx => mem_absorb.mpr (.inl hx)) (mem_absorb.mpr (.inr rfl)) ?_
    intro x hx
    rcases mem_absorb.mp hx with hx | rfl
    · exact h.ok.dirty hx
    · exact refs_ne_zero_of_held hp
  obtain ⟨fs, hrun, hok, -, -, hlog, hkept⟩ := Fs.logWrite_spec hdirty hown.has hlen
    (h.one_le_outstanding hp)
  refine ⟨fs, ?_, hok, hlog, ?_⟩
  · unfold logData
    rw [modify_bind_apply]
    exact hrun
  · intro j x v' hj
    by_cases hji : j = i
    · subst hji
      have hxb : x = b := hj.has.2.symm.trans hc.has.2
      subst hxb
      exact ⟨data, hkept hown⟩
    · exact ⟨v', hkept (hother hji hj)⟩

theorem logData_full {fs : Fs} (i : BufId) (data : Block) (h : logBlocks ≤ fs.log.lh.length) :
    logData i data fs = .error .logWriteTooBig := by
  unfold logData
  rw [modify_bind_apply]
  exact Fs.logWrite_full h

/-- `log_write` uses at most one of the blocks set aside. -/
theorem Inv.logWrite (h : c.Inv) {w : Finset Nat} {b : Nat} {i : BufId} {data : Block} {fs : Fs}
    {l : List DiskWrite} (hp : c.op p = some ⟨w, some (i, b)⟩) (hb : Home c.fs.log.start b)
    (hlt : b < 2 ^ 32) (hw : (insert b w).card ≤ maxOpBlocks)
    (hrun : logData i data c.fs = .ok ((), fs, l)) :
    (c.setOp p (some ⟨insert b w, some (i, b)⟩) fs).Inv := by
  have hlen : c.fs.log.lh.length < logBlocks := by
    by_contra hfull
    rw [logData_full i data (Nat.not_lt.mp hfull)] at hrun
    cases hrun
  obtain ⟨fs', hrun', hok, hlog, hkept⟩ := h.logData_returns hp data hlen
  cases hrun'.symm.trans hrun
  have hlh : fs.log.lh = absorb c.fs.log.lh b := by rw [hlog]
  have hrefs : (c.setOp p (some ⟨insert b w, some (i, b)⟩) fs).refs =
      pinned c.fs.log.lh c.refs b := by
    funext x
    have hx := refs_setOp (c := c) (p := p) (some ⟨insert b w, some (i, b)⟩) fs x
    have hpins := congrFun (pinned_pins c.fs.log.lh b) x
    rw [hp, hlh, ← hpins, pinned_apply] at hx
    rw [pinned_apply]
    simp only [Op.holds_held] at hx
    unfold refs at hx ⊢
    omega
  have hactive := Counting.sum_update Op.active c.op p (some ⟨insert b w, some (i, b)⟩)
  have hroom := Counting.sum_update Op.room c.op p (some ⟨insert b w, some (i, b)⟩)
  rw [hp] at hactive hroom
  simp only [Op.active_some, Op.room_some] at hactive hroom
  have hcount := h.count
  have hspace := h.space
  refine ⟨?_, ?_, ?_, ?_, ?_, ?_, ?_, ?_, ?_⟩
  · rw [hrefs]
    show fs.Ok _ fs.log.lh
    rw [hlh]
    exact hok
  · intro q r j x hq
    rcases setOp_cases hq with ⟨-, ho⟩ | ⟨-, hq⟩
    · cases ho
      obtain ⟨v, hv⟩ := h.held hp
      exact hkept hv
    · obtain ⟨v, hv⟩ := h.held hq
      exact hkept hv
  · show fs.log.lh.Nodup
    rw [hlh]
    exact absorb_nodup h.nodup b
  · show ∀ x ∈ fs.log.lh, Home fs.log.start x
    rw [hlog]
    intro x hx
    rcases mem_absorb.mp hx with hx | rfl
    · exact h.home x hx
    · exact hb
  · show ∀ x ∈ fs.log.lh, x < 2 ^ 32
    rw [hlh]
    intro x hx
    rcases mem_absorb.mp hx with hx | rfl
    · exact h.small x hx
    · exact hlt
  · show fs.log.committing = false
    rw [hlog]
    exact h.idle
  · show fs.log.outstanding = ∑ q, Op.active (update c.op p _ q)
    rw [hlog]
    dsimp only
    omega
  · intro q o x hq hx
    show x ∈ fs.log.lh
    rw [hlh]
    apply mem_absorb.mpr
    rcases setOp_cases hq with ⟨-, ho⟩ | ⟨-, hq⟩
    · cases ho
      rcases mem_insert.mp hx with rfl | hx
      · exact .inr rfl
      · exact .inl (h.logged hp hx)
    · exact .inl (h.logged hq hx)
  · show fs.log.lh.length + ∑ q, Op.room (update c.op p _ q) ≤ logBlocks
    rw [hlh]
    unfold absorb
    split
    · have hcard := card_le_card (subset_insert b w)
      omega
    · next hb =>
        have hbw : b ∉ w := fun hbw => hb (h.logged hp hbw)
        rw [List.length_append, List.length_singleton]
        rw [card_insert_of_notMem hbw] at hw hroom
        omega

/-- The last operation holds the only references that are not of the log. -/
theorem Inv.last_refs (h : c.Inv) {w : Finset Nat} (hp : c.op p = some ⟨w, none⟩)
    (ho : c.fs.log.outstanding - 1 = 0) :
    c.refs = pins c.fs.log.lh ∧ ∀ q, q ≠ p → c.op q = none := by
  have hone : ∀ q, q ≠ p → c.op q = none := by
    intro q hq
    have hactive := Counting.sum_update Op.active c.op p none
    have hle := Counting.le_sum Op.active (update c.op p none) q
    rw [update_of_ne hq] at hle
    have hcount := h.count
    rw [hp] at hactive
    simp only [Op.active_some, Op.active_none] at hactive
    cases hq' : c.op q with
    | none => rfl
    | some o =>
      rw [hq', Op.active_some] at hle
      omega
  refine ⟨?_, hone⟩
  funext b
  unfold refs
  rw [sum_eq_zero, Nat.add_zero]
  intro q _
  by_cases hq : q = p
  · subst hq
    rw [hp, Op.holds_free]
  · rw [hone q hq, Op.holds_none]

/-- **The last `end_op`**: the commit goes through unless the log is full. -/
theorem Inv.commits (h : c.Inv) {w : Finset Nat} (hp : c.op p = some ⟨w, none⟩)
    (ho : c.fs.log.outstanding - 1 = 0) (hlen : c.fs.log.lh.length < logBlocks) :
    ∃ fs ws, endOp c.fs = .ok ((), fs, ws) ∧ fs.Ok (pins []) [] ∧
      fs.log = { c.fs.log with outstanding := 0, lh := [] } := by
  have hok := h.ok
  rw [(h.last_refs hp ho).1] at hok
  by_cases hlh : c.fs.log.lh = []
  · refine ⟨_, _, Fs.endOp_nothing h.idle ho hlh, Fs.Ok.setLog ?_ _, ?_⟩
    · rw [hlh] at hok
      exact hok
    · rw [Fs.setLog_log, ho, ← hlh]
  · obtain ⟨fs, ws, _, _, hrun, -, hok', -, hlog⟩ := Fs.endOp_commits
      ⟨hok, h.nodup, h.home, h.small, hlen⟩ h.idle ho hlh
    exact ⟨fs, ws, hrun, hok', hlog⟩

/-- The commit of a full log finds no buffer for its copies. -/
theorem Inv.commit_panics (h : c.Inv) {w : Finset Nat} (hp : c.op p = some ⟨w, none⟩)
    (ho : c.fs.log.outstanding - 1 = 0) (hlen : c.fs.log.lh.length = logBlocks) :
    endOp c.fs = .error .bget := by
  have hok := h.ok
  rw [(h.last_refs hp ho).1] at hok
  exact Fs.endOp_full hok h.nodup h.home hlen h.idle ho

theorem Inv.length_le (h : c.Inv) : c.fs.log.lh.length ≤ logBlocks := by
  have := h.space
  omega

/-- `end_op`, with the commit of the last operation. -/
theorem Inv.endOp (h : c.Inv) {w : Finset Nat} {fs : Fs} {l : List DiskWrite}
    (hp : c.op p = some ⟨w, none⟩) (hrun : Xv6.endOp c.fs = .ok ((), fs, l)) :
    (c.setOp p none fs).Inv := by
  have hactive := Counting.sum_update Op.active c.op p none
  have hroom := Counting.sum_update Op.room c.op p none
  rw [hp] at hactive hroom
  simp only [Op.active_some, Op.active_none, Op.room_some, Op.room_none] at hactive hroom
  have hcount := h.count
  by_cases ho : c.fs.log.outstanding - 1 = 0
  · have hlen : c.fs.log.lh.length < logBlocks := by
      refine lt_of_le_of_ne h.length_le ?_
      intro hfull
      rw [h.commit_panics hp ho hfull] at hrun
      cases hrun
    obtain ⟨fs', ws, hrun', hok, hlog⟩ := h.commits hp ho hlen
    cases hrun'.symm.trans hrun
    have hnone : ∀ q, (c.setOp p none fs).op q = none := by
      intro q
      by_cases hq : q = p
      · subst hq
        exact setOp_op_self none fs
      · rw [setOp_op_of_ne none fs hq]
        exact (h.last_refs hp ho).2 q hq
    have hlh : fs.log.lh = [] := by rw [hlog]
    have hrefs : (c.setOp p none fs).refs = pins [] := by
      funext b
      unfold refs
      rw [sum_eq_zero fun q _ => by rw [hnone q, Op.holds_none], Nat.add_zero]
      show pins fs.log.lh b = _
      rw [hlh]
    refine ⟨?_, fun hq => absurd hq (by simp [hnone]), ?_, ?_, ?_, ?_, ?_,
      fun hq => absurd hq (by simp [hnone]), ?_⟩
    · rw [hrefs]
      show fs.Ok _ fs.log.lh
      rw [hlh]
      exact hok
    · show fs.log.lh.Nodup
      rw [hlh]
      exact List.nodup_nil
    · show ∀ x ∈ fs.log.lh, _
      simp [hlh]
    · show ∀ x ∈ fs.log.lh, _
      simp [hlh]
    · show fs.log.committing = false
      rw [hlog]
      exact h.idle
    · rw [sum_eq_zero fun q _ => by rw [hnone q, Op.active_none]]
      show fs.log.outstanding = 0
      rw [hlog]
    · rw [sum_eq_zero fun q _ => by rw [hnone q, Op.room_none]]
      show fs.log.lh.length + 0 ≤ logBlocks
      rw [hlh]
      decide
  · rw [endOp_other h.idle ho] at hrun
    cases hrun
    have hrefs : (c.setOp p none c.fs).refs = c.refs := by
      funext x
      have := refs_setOp (c := c) (p := p) none c.fs x
      rw [hp] at this
      simpa [refs] using this
    have hspace := h.space
    refine ⟨?_, ?_, h.nodup, h.home, h.small, h.idle, ?_, ?_, ?_⟩
    · refine Fs.Ok.setLog ?_ _
      show c.fs.Ok (c.setOp p none c.fs).refs _
      rw [hrefs]
      exact h.ok
    · intro q r j x hq
      rcases setOp_cases hq with ⟨-, ho⟩ | ⟨-, hq⟩
      · cases ho
      · obtain ⟨v, hv⟩ := h.held hq
        exact ⟨v, hv.has, hv.valid, hv.data⟩
    · show c.fs.log.outstanding - 1 = ∑ q, Op.active (update c.op p _ q)
      omega
    · intro q o b hq hb
      rcases setOp_cases hq with ⟨-, ho⟩ | ⟨-, hq⟩
      · cases ho
      · exact h.logged hq hb
    · show c.fs.log.lh.length + ∑ q, Op.room (update c.op p _ q) ≤ logBlocks
      omega

/-- **One step.** -/
theorem Step.inv (h : Step c a c') (hi : c.Inv) : c'.Inv := by
  cases h with
  | beginOp hp ha hrun => exact hi.beginOp hp ha hrun
  | bread hp hrun => exact hi.bread hp hrun
  | logWrite hp hb hlt hw hrun => exact hi.logWrite hp hb hlt hw hrun
  | brelse hp hrun => exact hi.brelse hp hrun
  | endOp hp hrun => exact hi.endOp hp hrun

/-! ## Whole runs -/

/-- What a step does to the log. -/
theorem Step.lh_cases (h : Step c a c') (hi : c.Inv) :
    c'.fs.log.lh = c.fs.log.lh ∨ c'.fs.log.lh = [] ∨
      ∃ p data w i b, a = .logWrite p data ∧ c.op p = some ⟨w, some (i, b)⟩ ∧
        c'.fs.log.lh = absorb c.fs.log.lh b := by
  cases h with
  | beginOp hp ha hrun =>
    cases hrun
    exact .inl rfl
  | bread hp hrun =>
    obtain ⟨_, _, hrun', _, _, hsame, _⟩ := Fs.bread_spec hi.ok (Fs.bread_room hi.ok hrun)
    cases hrun'.symm.trans hrun
    exact .inl (congrArg Log.lh hsame.log)
  | @logWrite p w b i data fs l hp hb hlt hw hrun =>
    right
    right
    have hlen : c.fs.log.lh.length < logBlocks := by
      by_contra hfull
      rw [logData_full i data (Nat.not_lt.mp hfull)] at hrun
      cases hrun
    obtain ⟨_, hrun', _, hlog, _⟩ := hi.logData_returns hp data hlen
    cases hrun'.symm.trans hrun
    exact ⟨p, data, w, i, b, rfl, hp, congrArg Log.lh hlog⟩
  | brelse hp hrun =>
    cases hrun
    exact .inl rfl
  | endOp hp hrun =>
    by_cases ho : c.fs.log.outstanding - 1 = 0
    · have hlen : c.fs.log.lh.length < logBlocks := by
        refine lt_of_le_of_ne hi.length_le ?_
        intro hfull
        rw [hi.commit_panics hp ho hfull] at hrun
        cases hrun
      obtain ⟨_, _, hrun', _, hlog⟩ := hi.commits hp ho hlen
      cases hrun'.symm.trans hrun
      exact .inr (.inl (congrArg Log.lh hlog))
    · rw [endOp_other hi.idle ho] at hrun
      cases hrun
      exact .inl rfl

/-- The condition on a step: a block that is not in the log yet leaves a place in it. -/
def Spare (c : Ops) : OpAct → Prop
  | .logWrite p _ => ∀ w i b, c.op p = some ⟨w, some (i, b)⟩ →
      b ∈ c.fs.log.lh ∨ c.fs.log.lh.length + 1 < logBlocks
  | _ => True

/-- A place stays free as long as no block takes the last one. -/
theorem Step.length_lt (h : Step c a c') (hi : c.Inv) (hs : c.Spare a)
    (hlen : c.fs.log.lh.length < logBlocks) : c'.fs.log.lh.length < logBlocks := by
  rcases h.lh_cases hi with hlh | hlh | ⟨p, data, w, i, b, rfl, hp, hlh⟩
  · rw [hlh]
    exact hlen
  · rw [hlh]
    decide
  · rw [hlh]
    unfold absorb
    split
    · exact hlen
    · next hb =>
        rcases hs w i b hp with hb' | hlt
        · exact absurd hb' hb
        · rw [List.length_append, List.length_singleton]
          exact hlt

/-- No operation is under way. -/
def start (s : Fs) : Ops := ⟨s, fun _ => none⟩

end Ops

/-- A file system with an empty log, as after recovery. -/
structure Fs.Idle (s : Fs) : Prop where
  ok : s.Ok (pins []) []
  lh : s.log.lh = []
  outstanding : s.log.outstanding = 0
  committing : s.log.committing = false

theorem Fs.boot_idle (start : Nat) (d : Nat → Block) : (Fs.boot start d).Idle :=
  ⟨Fs.boot_ok start d, rfl, rfl, rfl⟩

namespace Ops

variable {c c' : Ops} {p : ProcId} {a : OpAct} {s₀ : Fs}

/-- No operation has begun. -/
theorem start_inv (h : s₀.Idle) : (start s₀).Inv := by
  have hrefs : (start s₀).refs = pins [] := by
    funext b
    show pins s₀.log.lh b + ∑ _, 0 = _
    rw [h.lh, sum_const_zero, Nat.add_zero]
  refine ⟨?_, fun hp => absurd hp (by simp [start]), ?_, ?_, ?_, h.committing, ?_,
    fun hp => absurd hp (by simp [start]), ?_⟩
  · rw [hrefs]
    show s₀.Ok _ s₀.log.lh
    rw [h.lh]
    exact h.ok
  · show s₀.log.lh.Nodup
    rw [h.lh]
    exact List.nodup_nil
  · show ∀ b ∈ s₀.log.lh, _
    simp [h.lh]
  · show ∀ b ∈ s₀.log.lh, _
    simp [h.lh]
  · show s₀.log.outstanding = ∑ _, 0
    rw [h.outstanding, sum_const_zero]
  · show s₀.log.lh.length + ∑ _, 0 ≤ logBlocks
    rw [h.lh, sum_const_zero]
    decide

/-- The invariant along every run. -/
theorem run_inv {as : List OpAct} (h₀ : s₀.Idle) (h : Run Step (start s₀) as c) : c.Inv :=
  Run.invariant (start_inv h₀) (fun _ _ _ hi hs => hs.inv hi) h

/-- **Space suffices while a place is left in the log.** In every run in which no block takes the last
place of the log, `log_write` and `end_op`, with the commit of the last one, return. -/
theorem ops_fit_while_spare {as : List OpAct} (h₀ : s₀.Idle)
    (h : Run (Guarded Step Spare) (start s₀) as c) :
    c.fs.log.lh.length ≤ logBlocks ∧
    (∀ p w i b data, c.op p = some ⟨w, some (i, b)⟩ →
      ∃ fs, logData i data c.fs = .ok ((), fs, [])) ∧
    (∀ p w, c.op p = some ⟨w, none⟩ → ∃ fs ws, endOp c.fs = .ok ((), fs, ws)) := by
  have hinv : c.Inv ∧ c.fs.log.lh.length < logBlocks := by
    refine Run.invariant (I := fun c => c.Inv ∧ c.fs.log.lh.length < logBlocks) ⟨start_inv h₀, ?_⟩
      (fun _ _ _ hi hs => ⟨hs.2.inv hi.1, hs.2.length_lt hi.1 hs.1 hi.2⟩) h
    show s₀.log.lh.length < logBlocks
    rw [h₀.lh]
    decide
  obtain ⟨hi, hlen⟩ := hinv
  refine ⟨hi.length_le, ?_, ?_⟩
  · intro p w i b data hp
    obtain ⟨fs, hrun, -⟩ := hi.logData_returns hp data hlen
    exact ⟨fs, hrun⟩
  · intro p w hp
    by_cases ho : c.fs.log.outstanding - 1 = 0
    · obtain ⟨fs, ws, hrun, -⟩ := hi.commits hp ho hlen
      exact ⟨fs, ws, hrun⟩
    · exact ⟨_, _, endOp_other hi.idle ho⟩

/-! ## Filling the log -/

/-- A step, computed. -/
def exec (c : Ops) : OpAct → Option Ops
  | .beginOp p =>
    match c.op p with
    | none => if c.fs.log.Admits then (beginOp.final c.fs).map (c.setOp p (some ⟨∅, none⟩)) else none
    | some _ => none
  | .bread p b =>
    match c.op p, bread rootdev b c.fs with
    | some ⟨w, none⟩, .ok (i, fs, _) => some (c.setOp p (some ⟨w, some (i, b)⟩) fs)
    | _, _ => none
  | .logWrite p data =>
    match c.op p with
    | some ⟨w, some (i, b)⟩ =>
      if Home c.fs.log.start b ∧ b < 2 ^ 32 ∧ (insert b w).card ≤ maxOpBlocks then
        ((logData i data).final c.fs).map (c.setOp p (some ⟨insert b w, some (i, b)⟩))
      else none
    | _ => none
  | .brelse p =>
    match c.op p with
    | some ⟨w, some (i, _)⟩ => ((brelse i).final c.fs).map (c.setOp p (some ⟨w, none⟩))
    | _ => none
  | .endOp p =>
    match c.op p with
    | some ⟨_, none⟩ => (endOp.final c.fs).map (c.setOp p none)
    | _ => none

theorem run_of_map {x : FsM Unit} {s : Fs} {f : Fs → Ops} (h : (x.final s).map f = some c') :
    ∃ fs l, x s = .ok ((), fs, l) ∧ f fs = c' := by
  obtain ⟨fs, hfs, rfl⟩ := Option.map_eq_some_iff.mp h
  obtain ⟨⟨⟩, l, hrun⟩ := run_of_final hfs
  exact ⟨fs, l, hrun, rfl⟩

theorem step_of_exec (h : c.exec a = some c') : Step c a c' := by
  cases a with dsimp only [exec] at h
  | beginOp p =>
    split at h
    · next hp =>
        obtain ⟨ha, h⟩ := Option.ite_none_right_eq_some.mp h
        obtain ⟨fs, l, hrun, rfl⟩ := run_of_map h
        exact .beginOp hp ha hrun
    · cases h
  | bread p b =>
    split at h
    · next hp hrun =>
        cases h
        exact .bread hp hrun
    · cases h
  | logWrite p data =>
    split at h
    · next hp =>
        obtain ⟨⟨hb, hlt, hw⟩, h⟩ := Option.ite_none_right_eq_some.mp h
        obtain ⟨fs, l, hrun, rfl⟩ := run_of_map h
        exact .logWrite hp hb hlt hw hrun
    · cases h
  | brelse p =>
    split at h
    · next hp =>
        obtain ⟨fs, l, hrun, rfl⟩ := run_of_map h
        exact .brelse hp hrun
    · cases h
  | endOp p =>
    split at h
    · next hp =>
        obtain ⟨fs, l, hrun, rfl⟩ := run_of_map h
        exact .endOp hp hrun
    · cases h

instance (c : Ops) : (a : OpAct) → Decidable (c.Spare a)
  | .logWrite p _ =>
    match h : c.op p with
    | some ⟨_, some (_, b)⟩ => decidable_of_iff (b ∈ c.fs.log.lh ∨ c.fs.log.lh.length + 1 < logBlocks) (by
        simp [Spare, h])
    | some ⟨_, none⟩ | none => isTrue (by simp [Spare, h])
  | .beginOp _ | .bread .. | .brelse _ | .endOp _ => isTrue trivial

/-- Three operations log `n` blocks, ten of them each. -/
def filling (n : Nat) : List OpAct :=
  [.beginOp 0, .beginOp 1, .beginOp 2] ++ (List.range n).flatMap fun j =>
    let p : ProcId := Fin.ofNat _ (j / 10)
    [.bread p (40 + j), .logWrite p fun _ => 0, .brelse p]

/-- **A full log panics**: three admitted operations of `MAXOPBLOCKS` blocks each, held one buffer at a
time. A `log_write` of a block that is in the log already panics, and so does the commit. -/
theorem ops_fit_fails :
    (∃ c as p w i b, Run Step (start (Fs.boot 2 fun _ _ => 0)) as c ∧
      c.op p = some ⟨w, some (i, b)⟩ ∧ Home c.fs.log.start b ∧ (insert b w).card ≤ maxOpBlocks ∧
      logData i (fun _ => 0) c.fs = .error .logWriteTooBig) ∧
    (∃ c as p w, Run Step (start (Fs.boot 2 fun _ _ => 0)) as c ∧ c.op p = some ⟨w, none⟩ ∧
      endOp c.fs = .error .bget) := by
  constructor
  · have hexec : ((filling 30 ++ [OpAct.bread 0 40]).foldlM exec (start (Fs.boot 2 fun _ _ => 0))).any fun c =>
        (c.op 0).any fun o => o.held.any fun x => Home c.fs.log.start x.2 ∧
          (insert x.2 o.written).card ≤ maxOpBlocks ∧ logData x.1 (fun _ => 0) c.fs = .error .logWriteTooBig := by
      decide +kernel
    obtain ⟨c, hrun, hc⟩ := Run.of_exec hexec fun _ _ _ => step_of_exec
    obtain ⟨⟨w, held⟩, hop, hheld⟩ := (Option.any_eq_true _ _).mp hc
    obtain ⟨⟨i, b⟩, rfl, hfull⟩ := (Option.any_eq_true _ _).mp hheld
    exact ⟨c, _, 0, w, i, b, hrun, hop, of_decide_eq_true hfull⟩
  · -- the other two operations end first
    have hexec : ((filling 30 ++ [OpAct.endOp 1, .endOp 2]).foldlM exec
        (start (Fs.boot 2 fun _ _ => 0))).any fun c => (c.op 0).any fun o => o.held = none ∧ endOp c.fs = .error .bget := by
      decide +kernel
    obtain ⟨c, hrun, hc⟩ := Run.of_exec hexec fun _ _ _ => step_of_exec
    obtain ⟨⟨w, held⟩, hop, hend⟩ := (Option.any_eq_true _ _).mp hc
    obtain ⟨rfl, hpanic⟩ := of_decide_eq_true hend
    exact ⟨c, _, 0, w, hrun, hop, hpanic⟩

/-- Three operations log 29 blocks, and one of these a second time: the commit returns. -/
theorem ops_fit_while_spare_last : ∃ c as, Run (Guarded Step Spare) (start (Fs.boot 2 fun _ _ => 0)) as c ∧
    c.fs.log.lh = List.range' 40 29 ∧ ∃ fs ws, endOp c.fs = .ok ((), fs, ws) := by
  have hexec : ((filling 29 ++ [OpAct.bread 0 40, .logWrite 0 fun _ => 1, .brelse 0, .endOp 1, .endOp 2]).foldlM
      (fun (c : Ops) a => if c.Spare a then c.exec a else none) (start (Fs.boot 2 fun _ _ => 0))).any fun c =>
      (c.op 0).any fun o => o.held = none ∧ c.fs.log.lh = List.range' 40 29 := by
    decide +kernel
  have hstep (c : Ops) (a c') (h : (if c.Spare a then c.exec a else none) = some c') : Guarded Step Spare c a c' :=
    (Option.ite_none_right_eq_some.mp h).imp_right step_of_exec
  obtain ⟨c, hrun, hc⟩ := Run.of_exec hexec hstep
  obtain ⟨⟨w, held⟩, hop, hdone⟩ := (Option.any_eq_true _ _).mp hc
  obtain ⟨rfl, hlog⟩ := of_decide_eq_true hdone
  exact ⟨c, _, hrun, hlog, (ops_fit_while_spare (Fs.boot_idle 2 fun _ _ => 0) hrun).2.2 0 w hop⟩

end Ops

end Xv6
