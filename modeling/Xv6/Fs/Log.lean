import Xv6.Fs.BioSpec
import Xv6.Lib.Words

/-!
# `kernel/log.c`: the redo log

The log on disk is a header block, with the numbers of the blocks of a committed transaction, and the
blocks themselves in the order of the header. A transaction is written to the log, committed by
writing the header, installed block by block, and erased by writing an empty header.
-/

namespace Xv6

open TraceM Function List

/-! ## The code -/

/-- `struct logheader` in a block: `n`, and the entries of `block` in use. The rest of the block stays
as it was. -/
def headBlock (old : Block) (lh : List Nat) : Block :=
  Words.setWords (Words.setWord old 0 lh.length) 1 lh

/-- The block numbers in a header block. -/
def headOf (blk : Block) : List Nat := Words.words blk 1 (Words.word blk 0)

namespace Fs

def setLog (s : Fs) (log : Log) : Fs := { s with log := log }

def setLh (s : Fs) (lh : List Nat) : Fs := s.setLog { s.log with lh := lh }

theorem Ok.setLog {s : Fs} {m : Nat → Nat} {D : List Nat} (h : s.Ok m D) (log : Log) :
    (s.setLog log).Ok m D := ⟨h.cache, h.clean, h.dirty⟩

theorem setLog_log (s : Fs) (log : Log) : (s.setLog log).log = log := rfl

end Fs

/-- One turn of the loop of `install_trans`. -/
def installOne (recovering : Bool) (start : Nat) (e : Nat × Nat) : FsM Unit := do
  let lbuf ← bread rootdev (start + e.2 + 1)
  let dbuf ← bread rootdev e.1
  modify fun s => s.setData dbuf (s.cache.buf lbuf).data
  bwrite dbuf
  unless recovering do
    bunpin dbuf
  brelse lbuf
  brelse dbuf

def installTrans (recovering : Bool) : FsM Unit := do
  let log := (← get).log
  log.lh.zipIdx.forM (installOne recovering log.start)

def readHead : FsM Unit := do
  let i ← bread rootdev (← get).log.start
  modify fun s => s.setLh (headOf (s.cache.buf i).data)
  brelse i

def writeHead : FsM Unit := do
  let i ← bread rootdev (← get).log.start
  modify fun s => s.setData i (headBlock (s.cache.buf i).data s.log.lh)
  bwrite i
  brelse i

def recoverFromLog : FsM Unit := do
  readHead
  installTrans true
  modify fun s => s.setLh []
  writeHead

/-- One turn of the loop of `write_log`. -/
def writeLogOne (start : Nat) (e : Nat × Nat) : FsM Unit := do
  let toBuf ← bread rootdev (start + e.2 + 1)
  let fromBuf ← bread rootdev e.1
  modify fun s => s.setData toBuf (s.cache.buf fromBuf).data
  bwrite toBuf
  brelse fromBuf
  brelse toBuf

def writeLog : FsM Unit := do
  let log := (← get).log
  log.lh.zipIdx.forM (writeLogOne log.start)

def commit : FsM Unit := do
  if (← get).log.lh ≠ [] then
    writeLog
    writeHead
    installTrans false
    modify fun s => s.setLh []
    writeHead

/-- `log_write`: absorbs a block that is in the log already. -/
def logWrite (i : BufId) : FsM Unit := do
  let s ← get
  if logBlocks ≤ s.log.lh.length then throw .logWriteTooBig
  if s.log.outstanding < 1 then throw .logWriteOutside
  let b := (s.cache.buf i).blockno
  unless b ∈ s.log.lh do
    bpin i
    modify fun s => s.setLh (s.log.lh ++ [b])

/-- The test of `begin_op`; an operation that fails it sleeps and tries again. -/
def Log.Admits (log : Log) : Prop :=
  log.committing = false ∧ log.lh.length + (log.outstanding + 1) * maxOpBlocks ≤ logBlocks

instance (log : Log) : Decidable log.Admits := inferInstanceAs (Decidable (_ ∧ _))

/-- `begin_op`, when the test succeeds. -/
def beginOp : FsM Unit := modify fun s => s.setLog { s.log with outstanding := s.log.outstanding + 1 }

def endOp : FsM Unit := do
  modify fun s => s.setLog { s.log with outstanding := s.log.outstanding - 1 }
  let log := (← get).log
  if log.committing then throw .endOp
  if log.outstanding = 0 then
    modify fun s => s.setLog { s.log with committing := true }
    commit
    modify fun s => s.setLog { s.log with committing := false }

/-- `end_op` while another operation is under way. -/
theorem endOp_other {s : Fs} (hidle : s.log.committing = false) (ho : s.log.outstanding - 1 ≠ 0) :
    endOp s = .ok ((), s.setLog { s.log with outstanding := s.log.outstanding - 1 }, []) := by
  have hc : ¬ s.log.committing = true := by simp [hidle]
  unfold endOp
  rw [modify_bind_apply, get_bind_apply]
  exact (congrFun (if_neg hc) _).trans (congrFun (if_neg ho) _)

/-- The last `end_op` commits. -/
theorem endOp_last {s : Fs} (hidle : s.log.committing = false) (ho : s.log.outstanding - 1 = 0) :
    endOp s = (commit >>= fun _ => modify fun s => s.setLog { s.log with committing := false })
      (s.setLog { s.log with outstanding := 0, committing := true }) := by
  have hc : ¬ s.log.committing = true := by simp [hidle]
  unfold endOp
  rw [modify_bind_apply, get_bind_apply]
  refine (congrFun (if_neg hc) _).trans ((congrFun (if_pos ho) _).trans ?_)
  rw [modify_bind_apply]
  simp only [Fs.setLog, ho]

/-! ## `log_write` -/

namespace Fs

variable {s : Fs} {i : BufId}

/-- `log_write` panics when the log is full. -/
theorem logWrite_full (h : logBlocks ≤ s.log.lh.length) : logWrite i s = .error .logWriteTooBig := by
  unfold logWrite
  rw [get_bind_apply, if_pos h]
  rfl

/-- `log_write` panics outside of a transaction. -/
theorem logWrite_outside (h : s.log.lh.length < logBlocks) (ho : s.log.outstanding < 1) :
    logWrite i s = .error .logWriteOutside := by
  unfold logWrite
  rw [get_bind_apply, if_neg (Nat.not_le.mpr h), if_pos ho]
  rfl

/-- A block that is in the log already is absorbed. -/
theorem logWrite_absorb (h : s.log.lh.length < logBlocks) (ho : 1 ≤ s.log.outstanding)
    (hb : (s.cache.buf i).blockno ∈ s.log.lh) : logWrite i s = .ok ((), s, []) := by
  unfold logWrite
  rw [get_bind_apply, if_neg (Nat.not_le.mpr h), if_neg (Nat.not_lt.mpr ho), if_pos hb]
  rfl

/-- A block that is new to the log is pinned. -/
theorem logWrite_new (h : s.log.lh.length < logBlocks) (ho : 1 ≤ s.log.outstanding)
    (hb : (s.cache.buf i).blockno ∉ s.log.lh) : logWrite i s =
      .ok ((), (s.setCache (s.cache.bpin i)).setLh (s.log.lh ++ [(s.cache.buf i).blockno]), []) := by
  unfold logWrite
  rw [get_bind_apply, if_neg (Nat.not_le.mpr h), if_neg (Nat.not_lt.mpr ho), if_neg hb]
  rfl

end Fs

/-- The log after `log_write` of a block. -/
def absorb (lh : List Nat) (b : Nat) : List Nat := if b ∈ lh then lh else lh ++ [b]

theorem mem_absorb {lh : List Nat} {b x : Nat} : x ∈ absorb lh b ↔ x ∈ lh ∨ x = b := by
  unfold absorb
  split
  · next hb =>
      constructor
      · exact .inl
      · rintro (hx | rfl)
        · exact hx
        · exact hb
  · simp

theorem absorb_nodup {lh : List Nat} (h : lh.Nodup) (b : Nat) : (absorb lh b).Nodup := by
  unfold absorb
  split
  · exact h
  · next hb =>
      refine nodup_append.mpr ⟨h, nodup_singleton b, ?_⟩
      rintro x hx y hy rfl
      rw [mem_singleton.mp hy] at hx
      exact hb hx

/-- The references after `log_write` of a block: one more, if the log does not name it yet. -/
def pinned (lh : List Nat) (m : Nat → Nat) (b : Nat) : Nat → Nat := if b ∈ lh then m else addRef m b

theorem pinned_apply (lh : List Nat) (m : Nat → Nat) (b x : Nat) :
    pinned lh m b x = m x + if b ∉ lh ∧ x = b then 1 else 0 := by
  unfold pinned addRef
  by_cases hb : b ∈ lh
  · simp [hb]
  · by_cases hx : x = b
    · simp [hb, hx]
    · simp [hb, hx]

/-- **`log_write`** returns while there is room in the log. -/
theorem Fs.logWrite_spec {s : Fs} {i : BufId} {m : Nat → Nat} {D : List Nat} {b : Nat}
    (h : s.Ok m D) (hi : s.cache.Has i b) (hlen : s.log.lh.length < logBlocks)
    (ho : 1 ≤ s.log.outstanding) :
    ∃ s', logWrite i s = .ok ((), s', []) ∧ s'.Ok (pinned s.log.lh m b) D ∧ s'.view = s.view ∧
      s'.disk = s.disk ∧ s'.log = { s.log with lh := absorb s.log.lh b } ∧
      ∀ {j x v}, s.Caches j x v → s'.Caches j x v := by
  have hno : (s.cache.buf i).blockno = b := hi.2
  unfold pinned absorb
  by_cases hb : b ∈ s.log.lh
  · rw [if_pos hb, if_pos hb]
    exact ⟨s, logWrite_absorb hlen ho (by rw [hno]; exact hb), h, rfl, rfl, rfl, id⟩
  · rw [if_neg hb, if_neg hb]
    obtain ⟨s₁, hrun, hok, hsame, hkept⟩ := bpin_spec h hi
    cases hrun
    refine ⟨_, logWrite_new hlen ho (by rw [hno]; exact hb), hok.setLog _, hsame.view, hsame.disk,
      by rw [hno]; rfl, ?_⟩
    intro j x v hj
    obtain ⟨hhas, hv, hd⟩ := hkept hj
    exact ⟨hhas, hv, hd⟩

/-! ## Headers -/

/-- The header is read back as it was written. -/
theorem headOf_headBlock (old : Block) {lh : List Nat} (hlen : lh.length ≤ logBlocks)
    (hlt : ∀ b ∈ lh, b < 2 ^ 32) : headOf (headBlock old lh) = lh := by
  have hn : Words.word (headBlock old lh) 0 = lh.length := by
    unfold headBlock
    rw [Words.word_setWords_of_lt lh _ Nat.zero_lt_one]
    apply Words.word_setWord_self
    · decide
    · unfold logBlocks maxOpBlocks at hlen
      omega
  unfold headOf
  rw [hn]
  apply Words.words_setWords
  · unfold logBlocks maxOpBlocks at hlen
    unfold bsize
    omega
  · exact hlt

attribute [irreducible] headOf headBlock

/-! ## Pins -/

/-- One reference to each block of a list. -/
def pins (l : List Nat) : Nat → Nat := fun b => if b ∈ l then 1 else 0

theorem pins_ne_zero {l : List Nat} {b : Nat} : pins l b ≠ 0 ↔ b ∈ l := by
  unfold pins
  split <;> simp [*]

theorem addRef_pins {l : List Nat} {b : Nat} (hb : b ∉ l) : addRef (pins l) b = pins (l ++ [b]) := by
  funext x
  unfold addRef pins
  by_cases hx : x = b
  · subst hx
    simp [hb]
  · simp [hx]

theorem dropRef_pins {l : List Nat} {b : Nat} (hb : b ∉ l) : dropRef (pins (b :: l)) b = pins l := by
  funext x
  unfold dropRef pins
  by_cases hx : x = b
  · subst hx
    simp [hb]
  · simp [hx]

theorem pinned_pins (lh : List Nat) (b : Nat) : pinned lh (pins lh) b = pins (absorb lh b) := by
  unfold pinned absorb
  split
  · rfl
  · next hb => exact addRef_pins hb

theorem dropRef_pinned (lh : List Nat) (m : Nat → Nat) (b : Nat) :
    dropRef (pinned lh (addRef m b) b) b = pinned lh m b := by
  unfold pinned
  split <;> exact dropRef_addRef_self _ _

/-! ## Writes -/

/-- An array of blocks after some writes. -/
def applyWrites (ws : List DiskWrite) (f : Nat → Block) : Nat → Block :=
  ws.foldl (fun f w => update f w.1 w.2) f

theorem applyWrites_append (ws ws' : List DiskWrite) (f : Nat → Block) :
    applyWrites (ws ++ ws') f = applyWrites ws' (applyWrites ws f) := foldl_append

theorem applyWrites_singleton (b : Nat) (v : Block) (f : Nat → Block) :
    applyWrites [(b, v)] f = update f b v := rfl

/-- A block that is not among the writes stays. -/
theorem applyWrites_of_notMem (ws : List DiskWrite) : ∀ {f : Nat → Block} {b : Nat},
    (∀ w ∈ ws, w.1 ≠ b) → applyWrites ws f b = f b := by
  induction ws with
  | nil => exact fun _ => rfl
  | cons w ws ih =>
    intro f b h
    have hw : b ≠ w.1 := Ne.symm (h w mem_cons_self)
    rw [applyWrites, foldl_cons]
    exact (ih fun w' hw' => h w' (mem_cons_of_mem _ hw')).trans
      (update_of_ne hw _ _)

/-- A block to which all writes agree. -/
theorem applyWrites_of_agree (ws : List DiskWrite) {v : Block} : ∀ {f : Nat → Block} {b : Nat},
    (∀ w ∈ ws, w.1 = b → w.2 = v) → (f b = v ∨ ∃ w ∈ ws, w.1 = b) → applyWrites ws f b = v := by
  induction ws with
  | nil =>
    intro f b _ h
    rcases h with h | ⟨w, hw, _⟩
    · exact h
    · cases hw
  | cons w ws ih =>
    intro f b hall h
    rw [applyWrites, foldl_cons]
    refine ih (fun w' hw' => hall w' (mem_cons_of_mem _ hw')) ?_
    by_cases hw : w.1 = b
    · left
      rw [hw, update_self]
      exact hall w mem_cons_self hw
    · rcases h with h | ⟨w', hw', hb⟩
      · left
        rw [update_of_ne (Ne.symm hw)]
        exact h
      · rcases mem_cons.mp hw' with rfl | hmem
        · exact absurd hb hw
        · exact .inr ⟨w', hmem, hb⟩

namespace Fs

/-- The cache and the disk after some blocks were written through. -/
structure Wrote (s s' : Fs) (ws : List DiskWrite) : Prop where
  view : s'.view = applyWrites ws s.view
  disk : s'.disk = applyWrites ws s.disk
  log : s'.log = s.log

variable {s s' s'' : Fs} {m : Nat → Nat} {D : List Nat} {b : Nat} {i : BufId} {v : Block}

theorem Same.wrote (h : Same s s') : Wrote s s' [] := ⟨h.view, h.disk, h.log⟩

theorem Wrote.trans {ws ws' : List DiskWrite} (h : Wrote s s' ws) (h' : Wrote s' s'' ws') :
    Wrote s s'' (ws ++ ws') where
  view := by rw [h'.view, h.view, applyWrites_append]
  disk := by rw [h'.disk, h.disk, applyWrites_append]
  log := h'.log.trans h.log

theorem Wrote.same {ws : List DiskWrite} (h : Wrote s s' ws) (h' : Same s' s'') : Wrote s s'' ws := by
  simpa using h.trans h'.wrote

/-- The buffers of two blocks at the same time, as `write_log` and `install_trans` need them. -/
theorem bread_pair (h : s.Ok m D) {slot : Nat} (hne : slot ≠ b) {L : Finset Nat}
    (hL : ∀ x, m x ≠ 0 → x ∈ L) (hcard : L.card < nbuf) (hb : m b ≠ 0 ∨ L.card + 1 < nbuf) :
    ∃ i j s₁ s₂, bread rootdev slot s = .ok (i, s₁, []) ∧ bread rootdev b s₁ = .ok (j, s₂, []) ∧
      s₂.Ok (addRef (addRef m slot) b) D ∧ s₂.Caches i slot (s.view slot) ∧
      s₂.Caches j b (s.view b) ∧ i ≠ j ∧ Same s s₂ := by
  obtain ⟨i, s₁, hrun, hok, hc, hsame, -⟩ := bread_spec h (.inr (h.cache.exists_spare hL hcard))
  have hspare : addRef m slot b ≠ 0 ∨ ∃ i, (s₁.cache.buf i).refcnt = 0 := by
    rcases hb with hb | hb
    · exact .inl (addRef_ne_zero hb)
    · right
      refine hok.cache.exists_spare (L := insert slot L) ?_ ?_
      · intro x hx
        by_cases hxs : x = slot
        · exact hxs ▸ Finset.mem_insert_self _ _
        · rw [addRef_of_ne m hxs] at hx
          exact Finset.mem_insert_of_mem (hL x hx)
      · have := Finset.card_insert_le slot L
        omega
  obtain ⟨j, s₂, hrun₂, hok₂, hc₂, hsame₂, hkept⟩ := bread_spec hok hspare
  have hci := hkept hc (by simp)
  refine ⟨i, j, s₁, s₂, hrun, hrun₂, hok₂, hci, ?_, ?_, hsame.trans hsame₂⟩
  · rw [← hsame.view]
    exact hc₂
  · rintro rfl
    exact hne (hci.has.2.symm.trans hc₂.has.2)

/-! ## Single turns -/

/-- A pair of buffers for the next block of the log, with only the log's pins on the cache. -/
theorem bread_logged {l : List Nat} {slot : Nat} (h : s.Ok (pins l) D) (hslot : slot ∉ l)
    (hlen : l.length < nbuf) (hb : b ∈ l) :
    ∃ i j s₁ s₂, bread rootdev slot s = .ok (i, s₁, []) ∧ bread rootdev b s₁ = .ok (j, s₂, []) ∧
      s₂.Ok (addRef (addRef (pins l) slot) b) D ∧ s₂.Caches i slot (s.view slot) ∧
      s₂.Caches j b (s.view b) ∧ i ≠ j ∧ Same s s₂ := by
  refine bread_pair h (fun he => hslot (he ▸ hb)) (L := l.toFinset) ?_ ?_ (.inl (pins_ne_zero.mpr hb))
  · intro x hx
    exact mem_toFinset.mpr (pins_ne_zero.mp hx)
  · exact Nat.lt_of_le_of_lt (toFinset_card_le l) hlen

/-- A block of the transaction is copied to its place in the log. -/
theorem writeLogOne_spec {lh : List Nat} {start t : Nat} (h : s.Ok (pins lh) lh)
    (hslot : start + t + 1 ∉ lh) (hlen : lh.length < nbuf) (hb : b ∈ lh) :
    ∃ s', writeLogOne start (b, t) s = .ok ((), s', [(start + t + 1, s.view b)]) ∧
      s'.Ok (pins lh) lh ∧ Wrote s s' [(start + t + 1, s.view b)] := by
  obtain ⟨i, j, s₁, s₂, hrun₁, hrun₂, hok₂, hci, hcj, hij, hsame⟩ := bread_logged h hslot hlen hb
  have hdata : (s₂.cache.buf j).data = s.view b := hcj.data
  obtain ⟨s₃, hrun₃, hok₃, hview₃, hdisk₃, hlog₃, hci₃, hkept₃⟩ :=
    bwrite_spec hok₂ hci (s.view b) lh (fun hx _ => hx) fun hx => hok₂.dirty hx
  have hcj₃ := hkept₃ (Ne.symm hij) hcj
  obtain ⟨s₄, hrun₄, hok₄, hsame₄, hkept₄⟩ := brelse_spec hok₃ hcj₃.has fun hx => by
    rw [dropRef_addRef_self]
    exact addRef_ne_zero (pins_ne_zero.mpr hx)
  rw [dropRef_addRef_self] at hok₄
  obtain ⟨s₅, hrun₅, hok₅, hsame₅, -⟩ := brelse_spec hok₄ (hkept₄ hci₃).has fun hx => by
    rw [dropRef_addRef_self]
    exact pins_ne_zero.mpr hx
  rw [dropRef_addRef_self] at hok₅
  refine ⟨s₅, ?_, hok₅, ?_⟩
  · unfold writeLogOne
    rw [bind_of_ok hrun₁, bind_of_ok hrun₂, modify_bind_apply, hdata]
    refine bind_run hrun₃ ?_
    rw [bind_of_ok hrun₄]
    exact hrun₅
  · have hwrote : Wrote s₂ s₃ [(start + t + 1, s.view b)] := ⟨hview₃, hdisk₃, hlog₃⟩
    exact ((hsame.wrote.trans hwrote).same hsame₄).same hsame₅

/-- A block of the transaction is copied from the log to its home, and is not pinned any more. -/
theorem installOne_spec {l : List Nat} {start t : Nat} (h : s.Ok (pins (b :: l)) (b :: l))
    (hslot : start + t + 1 ∉ b :: l) (hlen : (b :: l).length < nbuf) (hb : b ∉ l) :
    ∃ s', installOne false start (b, t) s = .ok ((), s', [(b, s.view (start + t + 1))]) ∧
      s'.Ok (pins l) l ∧ Wrote s s' [(b, s.view (start + t + 1))] := by
  obtain ⟨i, j, s₁, s₂, hrun₁, hrun₂, hok₂, hci, hcj, hij, hsame⟩ :=
    bread_logged h hslot hlen mem_cons_self
  have hdata : (s₂.cache.buf i).data = s.view (start + t + 1) := hci.data
  have hl : ∀ {x}, x ∈ l → pins (b :: l) x ≠ 0 := fun hx =>
    pins_ne_zero.mpr (mem_cons_of_mem _ hx)
  obtain ⟨s₃, hrun₃, hok₃, hview₃, hdisk₃, hlog₃, hcj₃, hkept₃⟩ :=
    bwrite_spec hok₂ hcj (s.view (start + t + 1)) l
      (fun hx hne => (mem_cons.mp hx).resolve_left hne)
      fun hx => addRef_ne_zero (addRef_ne_zero (hl hx))
  have hci₃ := hkept₃ hij hci
  obtain ⟨s₄, hrun₄, hok₄, hsame₄, hkept₄⟩ := bunpin_spec hok₃ hcj₃.has fun hx => by
    rw [dropRef_addRef_self]
    exact addRef_ne_zero (hl hx)
  rw [dropRef_addRef_self] at hok₄
  obtain ⟨s₅, hrun₅, hok₅, hsame₅, hkept₅⟩ := brelse_spec hok₄ (hkept₄ hci₃).has fun hx => by
    rw [dropRef_addRef_self]
    exact hl hx
  rw [dropRef_addRef_self] at hok₅
  obtain ⟨s₆, hrun₆, hok₆, hsame₆, -⟩ := brelse_spec hok₅ (hkept₅ (hkept₄ hcj₃)).has fun hx => by
    rw [dropRef_pins hb]
    exact pins_ne_zero.mpr hx
  rw [dropRef_pins hb] at hok₆
  refine ⟨s₆, ?_, hok₆, ?_⟩
  · unfold installOne
    rw [bind_of_ok hrun₁, bind_of_ok hrun₂, modify_bind_apply, hdata]
    refine bind_run hrun₃ ?_
    simp only [Bool.false_eq_true, if_false]
    rw [bind_of_ok hrun₄, bind_of_ok hrun₅]
    exact hrun₆
  · have hwrote : Wrote s₂ s₃ [(b, s.view (start + t + 1))] := ⟨hview₃, hdisk₃, hlog₃⟩
    exact (((hsame.wrote.trans hwrote).same hsame₄).same hsame₅).same hsame₆

/-- The same during recovery, with nothing pinned. -/
theorem installOne_recover {start t : Nat} (h : s.Ok (pins []) []) (hne : start + t + 1 ≠ b) :
    ∃ s', installOne true start (b, t) s = .ok ((), s', [(b, s.view (start + t + 1))]) ∧
      s'.Ok (pins []) [] ∧ Wrote s s' [(b, s.view (start + t + 1))] := by
  obtain ⟨i, j, s₁, s₂, hrun₁, hrun₂, hok₂, hci, hcj, hij, hsame⟩ :=
    bread_pair h hne (L := ∅) (fun x hx => absurd (pins_ne_zero.mp hx) (by simp)) (by decide)
      (.inr (by decide))
  have hdata : (s₂.cache.buf i).data = s.view (start + t + 1) := hci.data
  obtain ⟨s₃, hrun₃, hok₃, hview₃, hdisk₃, hlog₃, hcj₃, hkept₃⟩ :=
    bwrite_spec hok₂ hcj (s.view (start + t + 1)) [] (fun hx _ => hx) fun hx => hok₂.dirty hx
  have hci₃ := hkept₃ hij hci
  obtain ⟨s₄, hrun₄, hok₄, hsame₄, hkept₄⟩ := brelse_spec hok₃ hci₃.has (fun hx => by cases hx)
  rw [dropRef_addRef_of_ne _ hne, dropRef_addRef_self] at hok₄
  obtain ⟨s₅, hrun₅, hok₅, hsame₅, -⟩ := brelse_spec hok₄ (hkept₄ hcj₃).has (fun hx => by cases hx)
  rw [dropRef_addRef_self] at hok₅
  refine ⟨s₅, ?_, hok₅, ?_⟩
  · unfold installOne
    rw [bind_of_ok hrun₁, bind_of_ok hrun₂, modify_bind_apply, hdata]
    refine bind_run hrun₃ ?_
    simp only [if_true]
    rw [bind_of_ok hrun₄]
    exact hrun₅
  · have hwrote : Wrote s₂ s₃ [(b, s.view (start + t + 1))] := ⟨hview₃, hdisk₃, hlog₃⟩
    exact ((hsame.wrote.trans hwrote).same hsame₄).same hsame₅

/-- `write_head` writes the header and nothing else. -/
theorem writeHead_spec {l : List Nat} (h : s.Ok (pins l) l)
    (hlen : l.length < nbuf) :
    ∃ s', writeHead s = .ok ((), s',
        [(s.log.start, headBlock (s.view s.log.start) s.log.lh)]) ∧
      s'.Ok (pins l) l ∧ Wrote s s' [(s.log.start, headBlock (s.view s.log.start) s.log.lh)] := by
  have hspare := h.cache.exists_spare (L := l.toFinset)
    (fun x hx => mem_toFinset.mpr (pins_ne_zero.mp hx))
    (Nat.lt_of_le_of_lt (toFinset_card_le l) hlen)
  obtain ⟨i, s₁, hrun₁, hok₁, hc₁, hsame₁, -⟩ := bread_spec (b := s.log.start) h (.inr hspare)
  obtain ⟨s₂, hrun₂, hok₂, hview₂, hdisk₂, hlog₂, hc₂, -⟩ :=
    bwrite_spec hok₁ hc₁ (headBlock (s.view s.log.start) s.log.lh) l (fun hx _ => hx)
      fun hx => hok₁.dirty hx
  obtain ⟨s₃, hrun₃, hok₃, hsame₃, -⟩ := brelse_spec hok₂ hc₂.has fun hx => by
    rw [dropRef_addRef_self]
    exact pins_ne_zero.mpr hx
  rw [dropRef_addRef_self] at hok₃
  refine ⟨s₃, ?_, hok₃, ?_⟩
  · unfold writeHead
    rw [get_bind_apply, bind_of_ok hrun₁, modify_bind_apply, hc₁.data, hsame₁.log]
    refine bind_run hrun₂ ?_
    exact hrun₃
  · have hwrote : Wrote s₁ s₂ [(s.log.start, headBlock (s.view s.log.start) s.log.lh)] :=
      ⟨hview₂, hdisk₂, hlog₂⟩
    exact (hsame₁.wrote.trans hwrote).same hsame₃

end Fs

/-! ## Loops -/

/-- A block outside the log. -/
def Home (start b : Nat) : Prop := b < start ∨ start + logBlocks < b

instance (start b : Nat) : Decidable (Home start b) := inferInstanceAs (Decidable (_ ∨ _))

/-- The writes of `write_log`: blocks to their places in the log. -/
def slotWrites (start : Nat) (f : Nat → Block) (l : List Nat) (t : Nat) : List DiskWrite :=
  (l.zipIdx t).map fun e => (start + e.2 + 1, f e.1)

/-- The writes of `install_trans`: blocks of the log to their homes. -/
def homeWrites (start : Nat) (f : Nat → Block) (l : List Nat) (t : Nat) : List DiskWrite :=
  (l.zipIdx t).map fun e => (e.1, f (start + e.2 + 1))

theorem slotWrites_congr {start : Nat} {f g : Nat → Block} (l : List Nat) (t : Nat)
    (h : ∀ b ∈ l, f b = g b) : slotWrites start f l t = slotWrites start g l t := by
  unfold slotWrites
  apply map_congr_left
  intro e he
  rw [h e.1 (fst_mem_of_mem_zipIdx he)]

theorem homeWrites_congr {start : Nat} {f g : Nat → Block} (l : List Nat) (t : Nat)
    (h : ∀ k, t ≤ k → k < t + l.length → f (start + k + 1) = g (start + k + 1)) :
    homeWrites start f l t = homeWrites start g l t := by
  unfold homeWrites
  apply map_congr_left
  intro e he
  rw [h e.2 (le_snd_of_mem_zipIdx he) (snd_lt_add_of_mem_zipIdx he)]

namespace Fs

variable {s s' s'' : Fs} {lh : List Nat} {start : Nat}

theorem Wrote.view_of_ne {ws : List DiskWrite} {b : Nat} (h : Wrote s s' ws)
    (hb : ∀ w ∈ ws, w.1 ≠ b) : s'.view b = s.view b := by
  rw [h.view]
  exact applyWrites_of_notMem ws hb

/-- `write_log` copies the blocks to the log in turn. -/
theorem writeLog_loop (hlen : lh.length < nbuf) (hhome : ∀ b ∈ lh, Home start b) (l : List Nat) :
    ∀ {s : Fs} {t : Nat}, s.Ok (pins lh) lh → (∀ b ∈ l, b ∈ lh) → t + l.length ≤ logBlocks →
      ∃ s', (l.zipIdx t).forM (writeLogOne start) s = .ok ((), s', slotWrites start s.view l t) ∧
        s'.Ok (pins lh) lh ∧ Wrote s s' (slotWrites start s.view l t) := by
  induction l with
  | nil => exact fun h _ _ => ⟨_, rfl, h, rfl, rfl, rfl⟩
  | cons b l ih =>
    intro s t h hsub ht
    simp only [length_cons] at ht
    have hnot : start + t + 1 ∉ lh := by
      intro hmem
      rcases hhome _ hmem with h | h <;> omega
    obtain ⟨s₁, hrun₁, hok₁, hw₁⟩ := writeLogOne_spec h hnot hlen (hsub b mem_cons_self)
    have hl : ∀ b' ∈ l, b' ∈ lh := fun b' hb' => hsub b' (mem_cons_of_mem _ hb')
    obtain ⟨s₂, hrun₂, hok₂, hw₂⟩ := ih (t := t + 1) hok₁ hl (by omega)
    -- the copies made so far are in the log, where no block of the transaction lives
    have hview : slotWrites start s₁.view l (t + 1) = slotWrites start s.view l (t + 1) := by
      apply slotWrites_congr
      intro b' hb'
      apply hw₁.view_of_ne
      intro w hw he
      simp only [mem_singleton] at hw
      subst hw
      have he : start + t + 1 = b' := he
      exact hnot (he ▸ hl b' hb')
    rw [hview] at hrun₂ hw₂
    exact ⟨s₂, bind_run hrun₁ hrun₂, hok₂, hw₁.trans hw₂⟩

/-- The loop of `install_trans`, when a turn writes its block home and leaves `P` of the rest. -/
theorem installTrans_loop {recovering : Bool} {P : List Nat → Fs → Prop}
    (turn : ∀ {s : Fs} {b t : Nat} {l : List Nat}, P (b :: l) s → start + t + 1 ∉ b :: l →
      ∃ s', installOne recovering start (b, t) s = .ok ((), s', [(b, s.view (start + t + 1))]) ∧
        P l s' ∧ Wrote s s' [(b, s.view (start + t + 1))]) (l : List Nat) :
    ∀ {s : Fs} {t : Nat}, P l s → (∀ b ∈ l, Home start b) → t + l.length ≤ logBlocks →
      ∃ s', (l.zipIdx t).forM (installOne recovering start) s =
          .ok ((), s', homeWrites start s.view l t) ∧
        P [] s' ∧ Wrote s s' (homeWrites start s.view l t) := by
  induction l with
  | nil => exact fun h _ _ => ⟨_, rfl, h, rfl, rfl, rfl⟩
  | cons b l ih =>
    intro s t h hhome ht
    have hnot : ∀ k, k < logBlocks → start + k + 1 ∉ b :: l := by
      intro k hk hmem
      rcases hhome _ hmem with h | h <;> omega
    simp only [length_cons] at ht
    obtain ⟨s₁, hrun₁, hok₁, hw₁⟩ := turn h (hnot t (by omega))
    obtain ⟨s₂, hrun₂, hok₂, hw₂⟩ := ih (t := t + 1) hok₁
      (fun b' hb' => hhome b' (mem_cons_of_mem _ hb')) (by omega)
    have hview : homeWrites start s₁.view l (t + 1) = homeWrites start s.view l (t + 1) := by
      apply homeWrites_congr
      intro k _ hk
      apply hw₁.view_of_ne
      intro w hw he
      simp only [mem_singleton] at hw
      subst hw
      exact hnot k (by omega) (he ▸ mem_cons_self)
    rw [hview] at hrun₂ hw₂
    exact ⟨s₂, bind_run hrun₁ hrun₂, hok₂, hw₁.trans hw₂⟩

/-- `install_trans` of a commit unpins the blocks on the way. -/
theorem install_loop (l : List Nat) {t : Nat} (h : s.Ok (pins l) l) (hnd : l.Nodup)
    (hhome : ∀ b ∈ l, Home start b) (hlen : l.length < nbuf) (ht : t + l.length ≤ logBlocks) :
    ∃ s', (l.zipIdx t).forM (installOne false start) s =
        .ok ((), s', homeWrites start s.view l t) ∧
      s'.Ok (pins []) [] ∧ Wrote s s' (homeWrites start s.view l t) := by
  obtain ⟨s', hrun, ⟨hok, -⟩, hw⟩ := installTrans_loop
    (P := fun l s => s.Ok (pins l) l ∧ l.Nodup ∧ l.length < nbuf)
    (fun ⟨h, hnd, hlen⟩ hslot => by
      obtain ⟨hb, hnd⟩ := nodup_cons.mp hnd
      obtain ⟨s', hrun, hok, hw⟩ := installOne_spec h hslot hlen hb
      exact ⟨s', hrun, ⟨hok, hnd, Nat.lt_of_succ_lt hlen⟩, hw⟩)
    l ⟨h, hnd, hlen⟩ hhome ht
  exact ⟨s', hrun, hok, hw⟩

/-- `install_trans` of a recovery finds nothing pinned. -/
theorem recover_loop (l : List Nat) {t : Nat} (h : s.Ok (pins []) [])
    (hhome : ∀ b ∈ l, Home start b) (ht : t + l.length ≤ logBlocks) :
    ∃ s', (l.zipIdx t).forM (installOne true start) s =
        .ok ((), s', homeWrites start s.view l t) ∧
      s'.Ok (pins []) [] ∧ Wrote s s' (homeWrites start s.view l t) :=
  installTrans_loop (P := fun _ s => s.Ok (pins []) [])
    (fun h hslot => installOne_recover h (ne_of_not_mem_cons hslot)) l h hhome ht

/-! ## `commit` and recovery -/

/-- A transaction in the log: the blocks are pinned, different, outside the log, and in number such
that one buffer is left. -/
structure Logged (s : Fs) : Prop where
  ok : s.Ok (pins s.log.lh) s.log.lh
  nodup : s.log.lh.Nodup
  home : ∀ b ∈ s.log.lh, Home s.log.start b
  small : ∀ b ∈ s.log.lh, b < 2 ^ 32
  room : s.log.lh.length < nbuf

/-- `write_log` writes to the log only. -/
theorem slotWrites_notMem {f : Nat → Block} {l : List Nat} {t b : Nat} (hb : Home start b)
    (ht : t + l.length ≤ logBlocks) : ∀ w ∈ slotWrites start f l t, w.1 ≠ b := by
  intro w hw
  obtain ⟨e, he, rfl⟩ := mem_map.mp hw
  have hk := snd_lt_add_of_mem_zipIdx he
  dsimp only
  rcases hb with hb | hb <;> omega

/-- `write_log` does not write the header. -/
theorem slotWrites_header {f : Nat → Block} {l : List Nat} {t : Nat} :
    ∀ w ∈ slotWrites start f l t, w.1 ≠ start := by
  intro w hw
  obtain ⟨e, he, rfl⟩ := mem_map.mp hw
  dsimp only
  omega

/-- What the log holds after `write_log`. -/
theorem applyWrites_slotWrites {f g : Nat → Block} (l : List Nat) (t : Nat) {e : Nat × Nat}
    (he : e ∈ l.zipIdx t) : applyWrites (slotWrites start f l t) g (start + e.2 + 1) = f e.1 := by
  apply applyWrites_of_agree
  · intro w hw hk
    obtain ⟨e', he', rfl⟩ := mem_map.mp hw
    have hsnd : e'.2 = e.2 := by
      dsimp only at hk
      omega
    have hfst : e'.1 = e.1 := by
      rw [mem_zipIdx_iff_le_and_getElem?_sub] at he he'
      rw [hsnd] at he'
      exact Option.some.inj (he'.2.symm.trans he.2)
    rw [hfst]
  · exact .inr ⟨_, mem_map.mpr ⟨e, he, rfl⟩, rfl⟩

/-- The writes of `commit`: copies to the log, the header, the blocks to their homes, and an empty
header. -/
structure CommitWrites (s : Fs) (ws : List DiskWrite) (h₁ h₂ : Block) : Prop where
  writes : ws = slotWrites s.log.start s.view s.log.lh 0 ++ (s.log.start, h₁) ::
    (s.log.lh.map (fun b => (b, s.view b)) ++ [(s.log.start, h₂)])
  header : headOf h₁ = s.log.lh
  cleared : headOf h₂ = []

/-- **`commit`** returns, writes the blocks in the order of the protocol, and leaves the cache as it
was, with nothing pinned. -/
theorem commit_spec (h : s.Logged) (hne : s.log.lh ≠ []) :
    ∃ s' ws h₁ h₂, commit s = .ok ((), s', ws) ∧ CommitWrites s ws h₁ h₂ ∧ s'.Ok (pins []) [] ∧
      s'.view = applyWrites ws s.view ∧ s'.disk = applyWrites ws s.disk ∧
      s'.log = { s.log with lh := [] } := by
  have hlen : s.log.lh.length ≤ logBlocks := Nat.le_of_lt h.room
  obtain ⟨s₁, hrun₁, hok₁, hw₁⟩ := writeLog_loop h.room h.home s.log.lh (t := 0) h.ok
    (fun _ hb => hb) (by omega)
  obtain ⟨s₂, hrun₂, hok₂, hw₂⟩ := writeHead_spec hok₁ h.room
  rw [hw₁.log] at hrun₂ hw₂
  obtain ⟨s₃, hrun₃, hok₃, hw₃⟩ := install_loop s.log.lh (t := 0) hok₂ h.nodup h.home h.room
    (by omega)
  have hlog₃ : s₃.log = s.log := hw₃.log.trans (hw₂.log.trans hw₁.log)
  have hcleared : (s₃.setLh []).Ok (pins []) [] := hok₃.setLog _
  obtain ⟨s₄, hrun₄, hok₄, hw₄⟩ := writeHead_spec hcleared (by decide)
  have hstart : (s₃.setLh []).log.start = s.log.start := by
    show s₃.log.start = s.log.start
    rw [hlog₃]
  rw [hstart] at hrun₄ hw₄
  change (s₃.setLh []).Wrote s₄ [(s.log.start, headBlock (s₃.view s.log.start) [])] at hw₄
  -- the log holds the blocks of the transaction when they are installed
  have hhome : homeWrites s.log.start s₂.view s.log.lh 0 =
      s.log.lh.map fun b => (b, s.view b) := by
    have hval : ∀ e ∈ s.log.lh.zipIdx, s₂.view (s.log.start + e.2 + 1) = s.view e.1 := by
      intro e he
      have hne : s.log.start ≠ s.log.start + e.2 + 1 := by omega
      rw [hw₂.view_of_ne (b := s.log.start + e.2 + 1) (by simpa using hne), hw₁.view]
      exact applyWrites_slotWrites s.log.lh 0 he
    unfold homeWrites
    rw [map_congr_left (g := fun e => (e.1, s.view e.1)) fun e he => by rw [hval e he]]
    have hcomp : (fun e : Nat × Nat => (e.1, s.view e.1)) = (fun b => (b, s.view b)) ∘ Prod.fst := rfl
    rw [hcomp, ← map_map, zipIdx_map_fst]
  rw [hhome] at hrun₃ hw₃
  have hall := (hw₁.trans hw₂).trans hw₃
  have hlist : ∀ (A B : List DiskWrite) (x y : DiskWrite),
      A ++ x :: (B ++ [y]) = A ++ [x] ++ B ++ [y] := by simp
  refine ⟨s₄, _, headBlock (s₁.view s.log.start) s.log.lh, headBlock (s₃.view s.log.start) [], ?_,
    ⟨rfl, ?_, ?_⟩, hok₄, ?_, ?_, ?_⟩
  · unfold commit
    rw [get_bind_apply, if_pos hne]
    have hrunLog : writeLog s = .ok ((), s₁, slotWrites s.log.start s.view s.log.lh 0) := by
      unfold writeLog
      rw [get_bind_apply]
      exact hrun₁
    have hrunInstall : installTrans false s₂ =
        .ok ((), s₃, s.log.lh.map fun b => (b, s.view b)) := by
      unfold installTrans
      rw [get_bind_apply, hw₂.log, hw₁.log]
      exact hrun₃
    refine bind_run hrunLog (bind_run hrun₂ (bind_run hrunInstall ?_))
    rw [modify_bind_apply]
    exact hrun₄
  · exact headOf_headBlock _ hlen h.small
  · exact headOf_headBlock _ (by decide) (by simp)
  · rw [hlist, applyWrites_append, ← hall.view]
    exact hw₄.view
  · rw [hlist, applyWrites_append, ← hall.disk]
    exact hw₄.disk
  · rw [hw₄.log, setLh, setLog_log, hlog₃]

/-- **A full log**: every buffer is pinned, and `commit` runs out of buffers at its first block. -/
theorem commit_full (h : s.Ok (pins s.log.lh) s.log.lh) (hnd : s.log.lh.Nodup)
    (hhome : ∀ b ∈ s.log.lh, Home s.log.start b) (hlen : s.log.lh.length = nbuf) :
    commit s = .error .bget := by
  have hbuf : ∀ i, (s.cache.buf i).blockno ∈ s.log.lh ∧ (s.cache.buf i).refcnt ≠ 0 :=
    h.cache.all_busy hnd (fun b hb => pins_ne_zero.mpr hb) hlen
  obtain ⟨b, l, hlh⟩ : ∃ b l, s.log.lh = b :: l := by
    cases hl : s.log.lh with
    | nil =>
      rw [hl] at hlen
      cases hlen
    | cons b l => exact ⟨b, l, rfl⟩
  have hslot : ∀ i, ¬ s.cache.Has i (s.log.start + 0 + 1) := by
    intro i hi
    have := hhome _ (hi.2 ▸ (hbuf i).1)
    unfold Home logBlocks maxOpBlocks at this
    omega
  have hbread : bread rootdev (s.log.start + 0 + 1) s = .error .bget := by
    apply bind_of_error
    unfold bget
    rw [get_bind_apply, CacheOk.bget_none hslot fun i => (hbuf i).2]
    rfl
  have hwrite : writeLog s = .error .bget := by
    unfold writeLog
    rw [get_bind_apply, hlh]
    exact bind_of_error (bind_of_error hbread)
  unfold commit
  rw [get_bind_apply, if_pos (by simp [hlh])]
  exact bind_of_error hwrite

/-! ## `end_op` -/

/-- The state in which the last `end_op` calls `commit`. -/
def committing (s : Fs) : Fs := s.setLog { s.log with outstanding := 0, committing := true }

/-- **The last `end_op`** commits what is in the log, if a buffer is not pinned. -/
theorem endOp_commits (h : s.Logged) (hidle : s.log.committing = false)
    (ho : s.log.outstanding - 1 = 0) (hne : s.log.lh ≠ []) :
    ∃ s' ws h₁ h₂, endOp s = .ok ((), s', ws) ∧ CommitWrites s ws h₁ h₂ ∧ s'.Ok (pins []) [] ∧
      s'.disk = applyWrites ws s.disk ∧ s'.log = { s.log with outstanding := 0, lh := [] } := by
  obtain ⟨s₁, ws, h₁, h₂, hcommit, hws, hok₁, -, hdisk₁, hlog₁⟩ := commit_spec (s := committing s)
    ⟨h.ok.setLog _, h.nodup, h.home, h.small, h.room⟩ hne
  refine ⟨s₁.setLog { s₁.log with committing := false }, ws, h₁, h₂, ?_,
    ⟨hws.writes, hws.header, hws.cleared⟩, hok₁.setLog _, hdisk₁, ?_⟩
  · rw [endOp_last hidle ho]
    have hrun := bind_run hcommit (f := fun _ => modify fun s =>
      s.setLog { s.log with committing := false }) rfl
    rw [append_nil] at hrun
    exact hrun
  · rw [setLog_log, hlog₁, ← hidle]
    rfl

/-- `end_op` of the last operation when nothing was logged. -/
theorem endOp_nothing (hidle : s.log.committing = false) (ho : s.log.outstanding - 1 = 0)
    (hlh : s.log.lh = []) :
    endOp s = .ok ((), s.setLog { s.log with outstanding := s.log.outstanding - 1 }, []) := by
  have hcommit : commit (committing s) = .ok ((), committing s, []) := by
    unfold commit
    rw [get_bind_apply]
    exact congrFun (if_neg (not_not_intro hlh)) _
  rw [endOp_last hidle ho, ho, ← hidle]
  exact bind_of_ok hcommit

/-- With every buffer pinned the last `end_op` panics. -/
theorem endOp_full (h : s.Ok (pins s.log.lh) s.log.lh) (hnd : s.log.lh.Nodup)
    (hhome : ∀ b ∈ s.log.lh, Home s.log.start b) (hlen : s.log.lh.length = nbuf)
    (hidle : s.log.committing = false) (ho : s.log.outstanding - 1 = 0) :
    endOp s = .error .bget := by
  rw [endOp_last hidle ho]
  exact bind_of_error (commit_full (s := committing s) (h.setLog _) hnd hhome hlen)

/-! ## Recovery -/

theorem readHead_run {s₁ : Fs} {i : BufId} {v : Block}
    (hrun : bread rootdev s.log.start s = .ok (i, s₁, [])) (hc : s₁.Caches i s.log.start v) :
    readHead s = brelse i (s₁.setLh (headOf v)) := by
  unfold readHead
  rw [get_bind_apply, bind_of_ok hrun, modify_bind_apply, hc.data]

/-- `read_head` takes the header from the disk. -/
theorem readHead_spec (h : s.Ok (pins []) []) {lh : List Nat}
    (hlh : headOf (s.view s.log.start) = lh) :
    ∃ s', readHead s = .ok ((), s', []) ∧ s'.Ok (pins []) [] ∧ s'.view = s.view ∧
      s'.disk = s.disk ∧ s'.log = { s.log with lh := lh } := by
  have hspare := h.cache.exists_spare (L := ∅)
    (fun x hx => absurd (pins_ne_zero.mp hx) (by simp)) (by decide)
  obtain ⟨i, s₁, hrun₁, hok₁, hc₁, hsame₁, -⟩ := bread_spec (b := s.log.start) h (.inr hspare)
  rw [readHead_run hrun₁ hc₁, hlh]
  have hset : (s₁.setLh lh).Ok (addRef (pins []) s.log.start) [] := hok₁.setLog _
  have hhas : (s₁.setLh lh).cache.Has i s.log.start := hc₁.has
  obtain ⟨s₂, hrun₂, hok₂, hsame₂, -⟩ := brelse_spec hset hhas (fun hx => by cases hx)
  rw [dropRef_addRef_self] at hok₂
  refine ⟨s₂, hrun₂, hok₂, hsame₂.view.trans hsame₁.view, hsame₂.disk.trans hsame₁.disk, ?_⟩
  rw [hsame₂.log, setLh, setLog_log, hsame₁.log]

/-- **Recovery** returns, installs the blocks of the log and clears the header. -/
theorem recover_spec (h : s.Ok (pins []) []) {lh : List Nat} (hlh : headOf (s.view s.log.start) = lh)
    (hhome : ∀ b ∈ lh, Home s.log.start b) (hlen : lh.length ≤ logBlocks) :
    ∃ s' ws h₂, recoverFromLog s = .ok ((), s', ws) ∧
      ws = homeWrites s.log.start s.view lh 0 ++ [(s.log.start, h₂)] ∧ headOf h₂ = [] ∧
      s'.Ok (pins []) [] ∧ s'.view = applyWrites ws s.view ∧ s'.disk = applyWrites ws s.disk ∧
      s'.log = { s.log with lh := [] } := by
  obtain ⟨s₁, hrun₁, hok₁, hview₁, hdisk₁, hlog₁⟩ := readHead_spec h hlh
  obtain ⟨s₂, hrun₂, hok₂, hw₂⟩ := recover_loop lh (t := 0) hok₁ hhome (by omega)
  rw [hview₁] at hrun₂ hw₂
  have hcleared : (s₂.setLh []).Ok (pins []) [] := hok₂.setLog _
  obtain ⟨s₃, hrun₃, hok₃, hw₃⟩ := writeHead_spec hcleared (by decide)
  have hstart : (s₂.setLh []).log.start = s.log.start := by
    show s₂.log.start = s.log.start
    rw [hw₂.log, hlog₁]
  rw [hstart] at hrun₃ hw₃
  change (s₂.setLh []).Wrote s₃ [(s.log.start, headBlock (s₂.view s.log.start) [])] at hw₃
  refine ⟨s₃, _, headBlock (s₂.view s.log.start) [], ?_, rfl, headOf_headBlock _ (by decide) (by simp),
    hok₃, ?_, ?_, ?_⟩
  · have hrunInstall : installTrans true s₁ = .ok ((), s₂, homeWrites s.log.start s.view lh 0) := by
      unfold installTrans
      rw [get_bind_apply, hlog₁]
      exact hrun₂
    unfold recoverFromLog
    rw [bind_of_ok hrun₁]
    refine bind_run hrunInstall ?_
    rw [modify_bind_apply]
    exact hrun₃
  · have hview₂ := hw₂.view
    rw [hview₁] at hview₂
    rw [applyWrites_append, ← hview₂]
    exact hw₃.view
  · have hdisk₂ := hw₂.disk
    rw [hdisk₁] at hdisk₂
    rw [applyWrites_append, ← hdisk₂]
    exact hw₃.disk
  · rw [hw₃.log, setLh, setLog_log, hw₂.log, hlog₁]

/-- At boot: an empty cache over a disk. -/
def boot (start : Nat) (d : Nat → Block) : Fs := ⟨Bcache.init, d, ⟨start, 0, false, []⟩⟩

theorem pins_nil : pins [] = fun _ => 0 := by
  funext b
  simp [pins]

theorem boot_ok (start : Nat) (d : Nat → Block) : (boot start d).Ok (pins []) [] := by
  refine ⟨?_, fun hi => absurd hi.1 (by simp [boot, Bcache.init]), by simp⟩
  rw [pins_nil]
  exact CacheOk.init_ok

end Fs

end Xv6
