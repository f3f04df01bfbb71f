import Xv6.Fs.Log
import Xv6.Lib.Transition

/-!
# Crashes

The machine can lose power between any two writes of blocks. What is left then is the disk; at the
next boot `recover_from_log` runs on it, and can be cut off in the same way.

A transaction counts as *durable* from the moment its header is written. The invariant says that the
log and the home blocks on disk always stand for the state after the durable transactions
(`Durable`), whether a transaction is being written, installed or recovered.
-/

namespace Xv6

open TraceM Transition Function List

/-! ## What a disk stands for -/

/-- **The disk stands for** the home blocks `S`: a block that the header names is `S` in the log, and
every other block is `S` at home. -/
structure Durable (start : Nat) (d : Nat → Block) (S : Nat → Block) (lh : List Nat) : Prop where
  header : headOf (d start) = lh
  nodup : lh.Nodup
  home : ∀ b ∈ lh, Home start b
  len : lh.length ≤ logBlocks
  logged : ∀ e ∈ lh.zipIdx, d (start + e.2 + 1) = S e.1
  rest : ∀ {b}, Home start b → b ∉ lh → d b = S b

namespace Durable

variable {start : Nat} {d S : Nat → Block} {lh : List Nat}

/-- An empty log stands for the home blocks as they are. -/
theorem empty (hh : headOf (d start) = []) (hS : ∀ {b}, Home start b → d b = S b) :
    Durable start d S [] :=
  ⟨hh, nodup_nil, by simp, Nat.zero_le _, by simp, fun hb _ => hS hb⟩

theorem congr {S' : Nat → Block} (h : Durable start d S lh)
    (hS : ∀ {b}, Home start b → S b = S' b) : Durable start d S' lh where
  header := h.header
  nodup := h.nodup
  home := h.home
  len := h.len
  logged e he := (h.logged e he).trans (hS (h.home _ (fst_mem_of_mem_zipIdx he)))
  rest hb hn := (h.rest hb hn).trans (hS hb)

theorem not_home_start : ¬ Home start start := by
  unfold Home
  omega

theorem not_home_slot {k : Nat} (hk : k < logBlocks) : ¬ Home start (start + k + 1) := by
  unfold Home
  omega

/-- Writes to the places of the log, while the header names none of them. -/
theorem slots (h : Durable start d S []) {ws : List DiskWrite}
    (hws : ∀ w ∈ ws, w.1 ≠ start ∧ ¬ Home start w.1) : Durable start (applyWrites ws d) S [] := by
  refine .empty ?_ ?_
  · rw [applyWrites_of_notMem ws fun w hw => (hws w hw).1]
    exact h.header
  · intro b hb
    rw [applyWrites_of_notMem ws fun w hw he => (hws w hw).2 (he ▸ hb)]
    exact h.rest hb (by simp)

/-- Installing blocks from the log. -/
theorem install (h : Durable start d S lh) {ws : List DiskWrite}
    (hws : ∀ w ∈ ws, w.1 ∈ lh ∧ w.2 = S w.1) : Durable start (applyWrites ws d) S lh := by
  have hkeep : ∀ {b}, ¬ Home start b → applyWrites ws d b = d b := by
    intro b hb
    exact applyWrites_of_notMem ws fun w hw he => hb (he ▸ h.home _ (hws w hw).1)
  refine ⟨?_, h.nodup, h.home, h.len, ?_, ?_⟩
  · rw [hkeep not_home_start]
    exact h.header
  · intro e he
    have hk := snd_lt_add_of_mem_zipIdx he
    have hlen := h.len
    rw [hkeep (not_home_slot (by omega))]
    exact h.logged e he
  · intro b hb hn
    have hne : ∀ w ∈ ws, w.1 ≠ b := fun w hw he => hn (he ▸ (hws w hw).1)
    rw [applyWrites_of_notMem ws hne]
    exact h.rest hb hn

/-- The writes that install a transaction and clear the header. -/
def finishWrites (start : Nat) (S : Nat → Block) (lh : List Nat) (h₂ : Block) : List DiskWrite :=
  lh.map (fun b => (b, S b)) ++ [(start, h₂)]

/-- When all blocks are installed, the header can go. -/
theorem finished (h : Durable start d S lh) {h₂ : Block} (hh : headOf h₂ = []) :
    Durable start (applyWrites (finishWrites start S lh h₂) d) S [] := by
  unfold finishWrites
  rw [applyWrites_append]
  have hi : Durable start (applyWrites (lh.map fun b => (b, S b)) d) S lh := by
    apply h.install
    intro w hw
    obtain ⟨b, hb, rfl⟩ := mem_map.mp hw
    exact ⟨hb, rfl⟩
  refine .empty ?_ ?_
  · rw [applyWrites_singleton, update_self]
    exact hh
  · intro b hb
    have hne : b ≠ start := fun he => not_home_start (he ▸ hb)
    rw [applyWrites_singleton, update_of_ne hne]
    by_cases hbl : b ∈ lh
    · apply applyWrites_of_agree
      · intro w hw he
        obtain ⟨b', _, rfl⟩ := mem_map.mp hw
        exact congrArg S he
      · exact .inr ⟨_, mem_map.mpr ⟨b, hbl, rfl⟩, rfl⟩
    · exact hi.rest hb hbl

/-- **A crash while a transaction is installed** or the header cleared. -/
theorem finish_take (h : Durable start d S lh) {h₂ : Block} (hh : headOf h₂ = []) (k : Nat) :
    ∃ lh', Durable start (applyWrites ((finishWrites start S lh h₂).take k) d) S lh' := by
  by_cases hk : k ≤ lh.length
  · refine ⟨lh, h.install ?_⟩
    intro w hw
    unfold finishWrites at hw
    rw [take_append_of_le_length (by simpa using hk)] at hw
    obtain ⟨b, hb, rfl⟩ := mem_map.mp (mem_of_mem_take hw)
    exact ⟨hb, rfl⟩
  · refine ⟨[], ?_⟩
    rw [take_of_length_le (by simp [finishWrites]; omega)]
    exact h.finished hh

/-- The header of a transaction that is in the log. -/
theorem commit (h : Durable start d S []) {S' : Nat → Block} {h₁ : Block} (hh : headOf h₁ = lh)
    (hnd : lh.Nodup) (hhome : ∀ b ∈ lh, Home start b) (hlen : lh.length ≤ logBlocks)
    (hlog : ∀ e ∈ lh.zipIdx, d (start + e.2 + 1) = S' e.1)
    (hrest : ∀ {b}, Home start b → b ∉ lh → S b = S' b) :
    Durable start (update d start h₁) S' lh := by
  refine ⟨by rw [update_self]; exact hh, hnd, hhome, hlen, ?_, ?_⟩
  · intro e he
    rw [update_of_ne (by omega)]
    exact hlog e he
  · intro b hb hn
    have hne : b ≠ start := fun he => not_home_start (he ▸ hb)
    rw [update_of_ne hne]
    exact (h.rest hb (by simp)).trans (hrest hb hn)

end Durable

/-! ## Operations -/

/-- A file-system operation changes a block: `bread`, new contents, `log_write`, `brelse`. -/
def updateBlock (b : Nat) (data : Block) : FsM Unit := do
  let i ← bread rootdev b
  modify fun s => s.setData i data
  logWrite i
  brelse i

/-- A file-system operation reads a block. -/
def readBlock (b : Nat) : FsM Block := do
  let i ← bread rootdev b
  let data := ((← get).cache.buf i).data
  brelse i
  return data

namespace Fs

variable {s s' : Fs} {m : Nat → Nat} {D : List Nat} {b : Nat} {i : BufId}

/-- Reading a block changes nothing that is seen. -/
theorem readBlock_spec (h : s.Ok (pins D) D) {data : Block} {l : List DiskWrite}
    (hrun : readBlock b s = .ok (data, s', l)) :
    l = [] ∧ data = s.view b ∧ s'.Ok (pins D) D ∧ Same s s' := by
  cases hb : bread rootdev b s with
  | error e =>
    unfold readBlock at hrun
    rw [bind_of_error hb] at hrun
    cases hrun
  | ok r =>
    obtain ⟨i, s₁, hrun₁, hok₁, hc₁, hsame₁, -⟩ := bread_spec h (bread_room h hb)
    obtain ⟨s₂, hrun₂, hok₂, hsame₂, -⟩ := brelse_spec hok₁ hc₁.has fun hx => by
      rw [dropRef_addRef_self]
      exact pins_ne_zero.mpr hx
    rw [dropRef_addRef_self] at hok₂
    unfold readBlock at hrun
    rw [bind_of_ok hrun₁, get_bind_apply, bind_of_ok hrun₂, hc₁.data] at hrun
    cases hrun
    exact ⟨rfl, rfl, hok₂, hsame₁.trans hsame₂⟩

/-- What a changed block leaves: the log names it, its buffer is pinned, and only its contents in the
cache change. -/
structure Updated (s s' : Fs) (b : Nat) (data : Block) : Prop where
  ok : s'.Ok (pins (absorb s.log.lh b)) (absorb s.log.lh b)
  view : s'.view = update s.view b data
  disk : s'.disk = s.disk
  log : s'.log = { s.log with lh := absorb s.log.lh b }

/-- **A block is changed** while there is a buffer for it and room in the log. -/
theorem updateBlock_returns (h : s.Ok (pins s.log.lh) s.log.lh) (data : Block)
    (hroom : pins s.log.lh b ≠ 0 ∨ ∃ i, (s.cache.buf i).refcnt = 0)
    (hlen : s.log.lh.length < logBlocks) (hout : 1 ≤ s.log.outstanding) :
    ∃ s', updateBlock b data s = .ok ((), s', []) ∧ Updated s s' b data := by
  obtain ⟨i, s₁, hrun₁, hok₁, hc₁, hsame₁, -⟩ := bread_spec h hroom
  have hlog : (s₁.setData i data).log = s.log := hsame₁.log
  have hdirty : (s₁.setData i data).Ok (addRef (pins s.log.lh) b) (absorb s.log.lh b) := by
    refine hok₁.dirtied hc₁ data (fun hx => mem_absorb.mpr (.inl hx)) (mem_absorb.mpr (.inr rfl)) ?_
    intro x hx
    rcases mem_absorb.mp hx with hx | rfl
    · exact addRef_ne_zero (pins_ne_zero.mpr hx)
    · simp
  have hc : (s₁.setData i data).Caches i b data := (setData_caches hc₁ data rfl).1
  obtain ⟨s₂, hrun₂, hok₂, hview₂, hdisk₂, hlog₂, hkept₂⟩ := logWrite_spec hdirty hc.has
    (by rw [hlog]; exact hlen) (by rw [hlog]; exact hout)
  rw [hlog] at hok₂ hlog₂
  obtain ⟨s₃, hrun₃, hok₃, hsame₃, -⟩ := brelse_spec hok₂ (hkept₂ hc).has fun hx => by
    rw [dropRef_pinned, pinned_pins]
    exact pins_ne_zero.mpr hx
  rw [dropRef_pinned, pinned_pins] at hok₃
  refine ⟨s₃, ?_, hok₃, ?_, ?_, hsame₃.log.trans hlog₂⟩
  · unfold updateBlock
    rw [bind_of_ok hrun₁, modify_bind_apply, bind_of_ok hrun₂]
    exact hrun₃
  · rw [hsame₃.view, hview₂, hok₁.setData_view hc₁ data rfl fun _ _ => rfl, hsame₁.view]
  · exact hsame₃.disk.trans (hdisk₂.trans hsame₁.disk)

/-- If changing a block returns, there was room for it. -/
theorem updateBlock_spec (h : s.Ok (pins s.log.lh) s.log.lh) {data : Block} {l : List DiskWrite}
    (hrun : updateBlock b data s = .ok ((), s', l)) :
    s.log.lh.length < logBlocks ∧ Updated s s' b data := by
  cases hb : bread rootdev b s with
  | error e =>
    unfold updateBlock at hrun
    rw [bind_of_error hb] at hrun
    cases hrun
  | ok r =>
    have hroom := bread_room h hb
    obtain ⟨i, s₁, hrun₁, -, -, hsame₁, -⟩ := bread_spec h hroom
    have hlog : (s₁.setData i data).log = s.log := hsame₁.log
    have hpeel : updateBlock b data s = (logWrite i >>= fun _ => brelse i) (s₁.setData i data) := by
      unfold updateBlock
      rw [bind_of_ok hrun₁, modify_bind_apply]
    have hlen : s.log.lh.length < logBlocks := by
      by_contra hfull
      rw [hpeel, bind_of_error (logWrite_full (by rw [hlog]; exact Nat.not_lt.mp hfull))] at hrun
      cases hrun
    have hout : 1 ≤ s.log.outstanding := by
      by_contra hout
      rw [hpeel, bind_of_error (logWrite_outside (by rw [hlog]; exact hlen)
        (by rw [hlog]; exact Nat.not_le.mp hout))] at hrun
      cases hrun
    obtain ⟨s₂, hrun₂, hu⟩ := updateBlock_returns h data hroom hlen hout
    cases hrun₂.symm.trans hrun
    exact ⟨hlen, hu⟩

end Fs

/-! ## The machine -/

inductive Power where
  | up (s : Fs)
  | down (disk : Nat → Block)

/-- The machine, with the changes of the transaction under way and the transactions whose header was
written to the disk, in their order. -/
structure Crashable where
  power : Power
  pending : List DiskWrite
  durable : List (List DiskWrite)

inductive CrashAct where
  | beginOp
  | write (b : Nat) (data : Block)
  | read (b : Nat)
  | endOp
  | endOpCrash (k : Nat)
  | crash
  | recover
  | recoverCrash (k : Nat)

namespace Crashable

/-- The durable transactions after the writes `ws`: one of them is the header of the log, or none. -/
def commits (c : Crashable) (start : Nat) (ws : List DiskWrite) : List (List DiskWrite) :=
  if ws.any (fun w => w.1 == start) then c.durable ++ [c.pending] else c.durable

/-- Operations while the machine is up, crashes after any number `k` of the writes of `end_op` or of
recovery, or between operations, and recovery. -/
inductive Step (start : Nat) : Crashable → CrashAct → Crashable → Prop
  | beginOp {c : Crashable} {s : Fs} (hp : c.power = .up s) (ha : s.log.Admits) :
      Step start c .beginOp
        { c with power := .up (s.setLog { s.log with outstanding := s.log.outstanding + 1 }) }
  | write {c : Crashable} {s s' : Fs} {b : Nat} {data : Block} {l : List DiskWrite}
      (hp : c.power = .up s) (hb : Home start b) (hlt : b < 2 ^ 32)
      (hrun : updateBlock b data s = .ok ((), s', l)) :
      Step start c (.write b data)
        { c with power := .up s', pending := c.pending ++ [(b, data)] }
  | read {c : Crashable} {s s' : Fs} {b : Nat} {data : Block} {l : List DiskWrite}
      (hp : c.power = .up s) (hrun : readBlock b s = .ok (data, s', l)) :
      Step start c (.read b) { c with power := .up s' }
  | endOp {c : Crashable} {s s' : Fs} {ws : List DiskWrite} (hp : c.power = .up s)
      (ho : 1 ≤ s.log.outstanding) (hrun : endOp s = .ok ((), s', ws)) :
      Step start c .endOp
        ⟨.up s', if s.log.outstanding = 1 then [] else c.pending, c.commits start ws⟩
  | endOpCrash {c : Crashable} {s s' : Fs} {ws : List DiskWrite} {k : Nat} (hp : c.power = .up s)
      (ho : 1 ≤ s.log.outstanding) (hrun : endOp s = .ok ((), s', ws)) :
      Step start c (.endOpCrash k)
        ⟨.down (applyWrites (ws.take k) s.disk), [], c.commits start (ws.take k)⟩
  | crash {c : Crashable} {s : Fs} (hp : c.power = .up s) :
      Step start c .crash ⟨.down s.disk, [], c.durable⟩
  | recover {c : Crashable} {d : Nat → Block} {s' : Fs} {ws : List DiskWrite}
      (hp : c.power = .down d) (hrun : recoverFromLog (Fs.boot start d) = .ok ((), s', ws)) :
      Step start c .recover { c with power := .up s', pending := [] }
  | recoverCrash {c : Crashable} {d : Nat → Block} {s' : Fs} {ws : List DiskWrite} {k : Nat}
      (hp : c.power = .down d) (hrun : recoverFromLog (Fs.boot start d) = .ok ((), s', ws)) :
      Step start c (.recoverCrash k) { c with power := .down (applyWrites (ws.take k) d) }

/-- A disk before the first boot. -/
def boot (d : Nat → Block) : Crashable := ⟨.down d, [], []⟩

end Crashable

/-- The home blocks after a sequence of transactions. -/
def afterAll (S : Nat → Block) (ts : List (List DiskWrite)) : Nat → Block :=
  ts.foldl (fun S t => applyWrites t S) S

theorem afterAll_snoc (S : Nat → Block) (ts : List (List DiskWrite)) (t : List DiskWrite) :
    afterAll S (ts ++ [t]) = applyWrites t (afterAll S ts) := foldl_append

/-- The machine is up, over home blocks `S`, with the changes `pending` in the cache. -/
structure Up (start : Nat) (S : Nat → Block) (pending : List DiskWrite) (s : Fs) : Prop where
  start_eq : s.log.start = start
  ok : s.Ok (pins s.log.lh) s.log.lh
  nodup : s.log.lh.Nodup
  home : ∀ b ∈ s.log.lh, Home start b
  small : ∀ b ∈ s.log.lh, b < 2 ^ 32
  len : s.log.lh.length ≤ logBlocks
  idle : s.log.committing = false
  header : headOf (s.disk start) = []
  disk : ∀ {b}, Home start b → s.disk b = S b
  view : ∀ {b}, Home start b → s.view b = applyWrites pending S b
  named : ∀ {b}, b ∈ s.log.lh ↔ ∃ w ∈ pending, w.1 = b

namespace Up

variable {start : Nat} {S : Nat → Block} {pending : List DiskWrite} {s s' : Fs}

/-- On disk the log is empty and the home blocks are those before the transaction. -/
theorem durable (h : Up start S pending s) : Durable start s.disk S [] :=
  .empty h.header fun hb => h.disk hb

/-- Other counters of operations. -/
theorem setCount (h : Up start S pending s) (n : Nat) :
    Up start S pending (s.setLog { s.log with outstanding := n }) :=
  ⟨h.start_eq, h.ok.setLog _, h.nodup, h.home, h.small, h.len, h.idle, h.header, h.disk, h.view,
    h.named⟩

/-- A read leaves what is pending. -/
theorem read {b : Nat} {data : Block} {l : List DiskWrite} (h : Up start S pending s)
    (hrun : readBlock b s = .ok (data, s', l)) : Up start S pending s' := by
  obtain ⟨-, -, hok, hsame⟩ := Fs.readBlock_spec h.ok hrun
  obtain ⟨hview, hdisk, hlog⟩ := hsame
  rw [← hlog] at hok
  refine ⟨?_, hok, ?_, ?_, ?_, ?_, ?_, ?_, ?_, ?_, ?_⟩
  all_goals first | rw [hlog] | rw [hdisk] | rw [hview]
  · exact h.start_eq
  · exact h.nodup
  · exact h.home
  · exact h.small
  · exact h.len
  · exact h.idle
  · exact h.header
  · exact h.disk
  · exact h.view
  · exact h.named

/-- A write is pending from now on. -/
theorem write {b : Nat} {data : Block} {l : List DiskWrite} (h : Up start S pending s)
    (hb : Home start b) (hlt : b < 2 ^ 32) (hrun : updateBlock b data s = .ok ((), s', l)) :
    Up start S (pending ++ [(b, data)]) s' := by
  obtain ⟨hlen, hok, hview, hdisk, hlog⟩ := Fs.updateBlock_spec h.ok hrun
  have hlh : s'.log.lh = absorb s.log.lh b := by rw [hlog]
  rw [← hlh] at hok
  refine ⟨by rw [hlog]; exact h.start_eq, hok, ?_, ?_, ?_, ?_, by rw [hlog]; exact h.idle,
    by rw [hdisk]; exact h.header, by rw [hdisk]; exact h.disk, ?_, ?_⟩
  · rw [hlh]
    exact absorb_nodup h.nodup b
  · intro x hx
    rw [hlh] at hx
    rcases mem_absorb.mp hx with hx | rfl
    · exact h.home x hx
    · exact hb
  · intro x hx
    rw [hlh] at hx
    rcases mem_absorb.mp hx with hx | rfl
    · exact h.small x hx
    · exact hlt
  · rw [hlh]
    unfold absorb
    split
    · exact h.len
    · simp only [length_append, length_singleton]
      omega
  · intro x hx
    rw [hview, applyWrites_append, applyWrites_singleton]
    by_cases hxb : x = b
    · subst hxb
      rw [update_self, update_self]
    · rw [update_of_ne hxb, update_of_ne hxb]
      exact h.view hx
  · intro x
    rw [hlh, mem_absorb, h.named]
    constructor
    · rintro (⟨w, hw, he⟩ | rfl)
      · exact ⟨w, mem_append_left _ hw, he⟩
      · exact ⟨(x, data), by simp, rfl⟩
    · rintro ⟨w, hw, he⟩
      rcases mem_append.mp hw with hw | hw
      · exact .inl ⟨w, hw, he⟩
      · rw [mem_singleton.mp hw] at he
        exact .inr he.symm

/-- Without changes there is nothing in the log. -/
theorem lh_eq_nil (h : Up start S pending s) : s.log.lh = [] ↔ pending = [] := by
  constructor
  · intro hlh
    cases pending with
    | nil => rfl
    | cons w ws =>
      have := h.named.mpr ⟨w, mem_cons_self, rfl⟩
      rw [hlh] at this
      cases this
  · rintro rfl
    cases hlh : s.log.lh with
    | nil => rfl
    | cons b l =>
      have hb : b ∈ s.log.lh := hlh ▸ mem_cons_self
      obtain ⟨w, hw, _⟩ := h.named.mp hb
      cases hw

/-- What a commit leaves: the transaction at home, an empty log, and nothing pinned. -/
structure Committed (start : Nat) (s s' : Fs) (ws : List DiskWrite) (h₁ h₂ : Block) : Prop where
  writes : ws = slotWrites start s.view s.log.lh 0 ++ (start, h₁) ::
    Durable.finishWrites start s.view s.log.lh h₂
  header : headOf h₁ = s.log.lh
  cleared : headOf h₂ = []
  ok : s'.Ok (pins []) []
  disk : s'.disk = applyWrites ws s.disk
  log : s'.log = { s.log with outstanding := 0, lh := [] }

/-- The last `end_op` commits what is in the log, if a buffer is not pinned. -/
theorem endOp_commits (h : Up start S pending s) (ho : s.log.outstanding - 1 = 0)
    (hlh : s.log.lh ≠ []) (hlen : s.log.lh.length < nbuf) :
    ∃ s' ws h₁ h₂, endOp s = .ok ((), s', ws) ∧ Committed start s s' ws h₁ h₂ := by
  have hstart := h.start_eq
  subst hstart
  obtain ⟨s', ws, h₁, h₂, hrun, hws, hok, hdisk, hlog⟩ := Fs.endOp_commits
    ⟨h.ok, h.nodup, h.home, h.small, hlen⟩ h.idle ho hlh
  exact ⟨s', ws, h₁, h₂, hrun, hws.writes, hws.header, hws.cleared, hok, hdisk, hlog⟩

/-- **`end_op`**: another operation is under way or there is nothing to commit, or it commits. A log
that pins every buffer does not get here. -/
theorem endOp_cases (h : Up start S pending s) {ws : List DiskWrite}
    (hrun : endOp s = .ok ((), s', ws)) :
    (ws = [] ∧ s' = s.setLog { s.log with outstanding := s.log.outstanding - 1 } ∧
      (s.log.outstanding - 1 = 0 → pending = [])) ∨
    (s.log.outstanding - 1 = 0 ∧ ∃ h₁ h₂, Committed start s s' ws h₁ h₂) := by
  have hidle := h.idle
  by_cases ho : s.log.outstanding - 1 = 0
  · by_cases hlh : s.log.lh = []
    · rw [Fs.endOp_nothing hidle ho hlh] at hrun
      cases hrun
      exact .inl ⟨rfl, rfl, fun _ => h.lh_eq_nil.mp hlh⟩
    · have hlen : s.log.lh.length < nbuf := by
        refine lt_of_le_of_ne h.len ?_
        intro hfull
        have hhome : ∀ b ∈ s.log.lh, Home s.log.start b := h.start_eq.symm ▸ h.home
        rw [Fs.endOp_full h.ok h.nodup hhome hfull hidle ho] at hrun
        cases hrun
      obtain ⟨s₁, ws₁, h₁, h₂, hrun₁, hc⟩ := h.endOp_commits ho hlh hlen
      cases hrun₁.symm.trans hrun
      exact .inr ⟨ho, h₁, h₂, hc⟩
  · rw [endOp_other hidle ho] at hrun
    cases hrun
    exact .inl ⟨rfl, rfl, fun h => absurd h ho⟩

/-- The home blocks that the transaction leaves alone. -/
theorem view_rest (h : Up start S pending s) {b : Nat} (hb : Home start b) (hn : b ∉ s.log.lh) :
    S b = s.view b := by
  rw [h.ok.view_clean hn, h.disk hb]

/-- Copies in the log without a header stand for nothing. -/
theorem slots_durable (h : Up start S pending s) (k : Nat) :
    Durable start (applyWrites ((slotWrites start s.view s.log.lh 0).take k) s.disk) S [] := by
  apply h.durable.slots
  intro w hw
  refine ⟨Fs.slotWrites_header w (mem_of_mem_take hw), fun hhome => ?_⟩
  exact Fs.slotWrites_notMem hhome (by have := h.len; omega) w (mem_of_mem_take hw) rfl

/-- **The header makes the transaction durable.** -/
theorem header_durable (h : Up start S pending s) {h₁ : Block} (hh : headOf h₁ = s.log.lh) :
    Durable start (update
      (applyWrites (slotWrites start s.view s.log.lh 0) s.disk) start h₁) s.view s.log.lh := by
  have hslots := h.slots_durable (slotWrites start s.view s.log.lh 0).length
  rw [take_length] at hslots
  exact hslots.commit hh h.nodup h.home h.len (fun e he => Fs.applyWrites_slotWrites _ 0 he)
    h.view_rest

/-- A crash in `commit` before the header is written, and after. -/
theorem commit_take (h : Up start S pending s) {ws : List DiskWrite} {h₁ h₂ : Block}
    (hc : Committed start s s' ws h₁ h₂) (k : Nat) :
    ((ws.take k).any (fun w => w.1 == start) = false ∧
      Durable start (applyWrites (ws.take k) s.disk) S []) ∨
    ((ws.take k).any (fun w => w.1 == start) = true ∧
      ∃ lh, Durable start (applyWrites (ws.take k) s.disk) (applyWrites pending S) lh) := by
  rw [hc.writes]
  generalize hA : slotWrites start s.view s.log.lh 0 = A
  by_cases hk : k ≤ A.length
  · left
    rw [take_append_of_le_length hk]
    constructor
    · rw [any_eq_false]
      intro w hw
      rw [← hA] at hw
      simpa using Fs.slotWrites_header w (mem_of_mem_take hw)
    · rw [← hA]
      exact h.slots_durable k
  · right
    obtain ⟨j, rfl⟩ : ∃ j, k = A.length + (j + 1) := ⟨k - A.length - 1, by omega⟩
    rw [take_length_add_append, take_succ_cons]
    refine ⟨by simp, ?_⟩
    have hdisk : ∀ B : List DiskWrite, applyWrites (A ++ (start, h₁) :: B) s.disk =
        applyWrites B (update (applyWrites A s.disk) start h₁) := by
      intro B
      rw [applyWrites_append]
      rfl
    have hd := h.header_durable hc.header
    rw [hA] at hd
    obtain ⟨lh, hlh⟩ := hd.finish_take hc.cleared j
    rw [hdisk]
    exact ⟨lh, hlh.congr h.view⟩

/-- A commit that goes through. -/
theorem committed (h : Up start S pending s) {ws : List DiskWrite} {h₁ h₂ : Block}
    (hc : Committed start s s' ws h₁ h₂) :
    ws.any (fun w => w.1 == start) = true ∧ Up start (applyWrites pending S) [] s' := by
  have hd := (h.header_durable hc.header).finished hc.cleared
  have hdisk : s'.disk = applyWrites (Durable.finishWrites start s.view s.log.lh h₂) (update
      (applyWrites (slotWrites start s.view s.log.lh 0) s.disk) start h₁) := by
    rw [hc.disk, hc.writes, applyWrites_append]
    rfl
  rw [← hdisk] at hd
  have hhome : ∀ {b}, Home start b → s'.disk b = applyWrites pending S b :=
    fun hb => (hd.rest hb (by simp)).trans (h.view hb)
  have hlh : s'.log.lh = [] := by rw [hc.log]
  refine ⟨by rw [hc.writes]; simp, by rw [hc.log]; exact h.start_eq, by rw [hlh]; exact hc.ok,
    by rw [hlh]; exact nodup_nil, by simp [hlh], by simp [hlh], by simp [hlh],
    by rw [hc.log]; exact h.idle, hd.header, hhome, ?_, by simp [hlh]⟩
  intro b hb
  rw [hc.ok.view_clean (by simp)]
  exact hhome hb

end Up

/-! ## Recovery -/

/-- **Recovery** brings up the home blocks that the disk stands for. -/
theorem Durable.recover {start : Nat} {d S : Nat → Block} {lh : List Nat}
    (h : Durable start d S lh) :
    ∃ s h₂, recoverFromLog (Fs.boot start d) = .ok ((), s, finishWrites start S lh h₂) ∧
      headOf h₂ = [] ∧ Up start S [] s ∧ s.log.outstanding = 0 := by
  have hboot := Fs.boot_ok start d
  have hview : (Fs.boot start d).view = d := by
    funext b
    exact hboot.view_clean (by simp)
  have hlh : headOf ((Fs.boot start d).view start) = lh := by
    rw [hview]
    exact h.header
  obtain ⟨s, ws, h₂, hrun, hws, hh₂, hok, -, hdisk, hlog⟩ := Fs.recover_spec hboot hlh h.home h.len
  have hwrites : ws = finishWrites start S lh h₂ := by
    rw [hws, hview]
    unfold homeWrites finishWrites
    have hval : ∀ e ∈ lh.zipIdx, (e.1, d (start + e.2 + 1)) = (e.1, S e.1) :=
      fun e he => by rw [h.logged e he]
    have hcomp : (fun e : Nat × Nat => (e.1, S e.1)) = (fun b => (b, S b)) ∘ Prod.fst := rfl
    show lh.zipIdx.map (fun e => (e.1, d (start + e.2 + 1))) ++ [(start, h₂)] = _
    rw [map_congr_left hval, hcomp, ← map_map, zipIdx_map_fst]
  have hd := h.finished hh₂
  rw [← hwrites] at hd
  rw [show (Fs.boot start d).disk = d from rfl] at hdisk
  rw [← hdisk] at hd
  have hhome : ∀ {b}, Home start b → s.disk b = S b := fun hb => hd.rest hb (by simp)
  have hlh' : s.log.lh = [] := by rw [hlog]
  refine ⟨s, h₂, hwrites ▸ hrun, hh₂, ⟨by rw [hlog]; rfl, by rw [hlh']; exact hok,
    by rw [hlh']; exact nodup_nil, by simp [hlh'], by simp [hlh'], by simp [hlh'],
    by rw [hlog]; rfl, hd.header, hhome, ?_, by simp [hlh']⟩, by rw [hlog]; rfl⟩
  intro b hb
  rw [hok.view_clean (by simp)]
  exact hhome hb

/-! ## The invariant -/

namespace Crashable

variable {start : Nat} {S₀ : Nat → Block} {c c' : Crashable} {a : CrashAct}

/-- The disk or the running system stand for the durable transactions. -/
def Inv (start : Nat) (S₀ : Nat → Block) (c : Crashable) : Prop :=
  match c.power with
  | .up s => Up start (afterAll S₀ c.durable) c.pending s
  | .down d => ∃ lh, Durable start d (afterAll S₀ c.durable) lh

theorem Inv.up {s : Fs} (h : c.Inv start S₀) (hp : c.power = .up s) :
    Up start (afterAll S₀ c.durable) c.pending s := by
  unfold Inv at h
  rw [hp] at h
  exact h

theorem Inv.down {d : Nat → Block} (h : c.Inv start S₀) (hp : c.power = .down d) :
    ∃ lh, Durable start d (afterAll S₀ c.durable) lh := by
  unfold Inv at h
  rw [hp] at h
  exact h

/-- Once the header is written the pending blocks are durable. -/
theorem commits_of_any {ws : List DiskWrite} (h : ws.any (fun w => w.1 == start) = true) :
    afterAll S₀ (c.commits start ws) = applyWrites c.pending (afterAll S₀ c.durable) := by
  unfold commits
  rw [if_pos h]
  exact afterAll_snoc S₀ _ _

/-- Until then they are not. -/
theorem commits_of_not_any {ws : List DiskWrite} (h : ws.any (fun w => w.1 == start) = false) :
    c.commits start ws = c.durable := by
  unfold commits
  rw [if_neg (by simp [h])]

/-- **One step**: an operation, a crash at any write, recovery. -/
theorem Step.inv (h : Step start c a c') (hc : c.Inv start S₀) : c'.Inv start S₀ := by
  cases h with
  | beginOp hp _ => exact (hc.up hp).setCount _
  | write hp hb hlt hrun => exact (hc.up hp).write hb hlt hrun
  | read hp hrun => exact (hc.up hp).read hrun
  | endOp hp ho hrun =>
    have hup := hc.up hp
    rcases hup.endOp_cases hrun with ⟨rfl, rfl, hnone⟩ | ⟨hone, h₁, h₂, hcom⟩
    · show Up start (afterAll S₀ (c.commits start [])) _ _
      rw [commits_of_not_any rfl]
      split
      · next hone =>
          rw [← hnone (by omega)]
          exact hup.setCount _
      · exact hup.setCount _
    · obtain ⟨hany, hup'⟩ := hup.committed hcom
      show Up start (afterAll S₀ (c.commits start _)) _ _
      rw [commits_of_any hany, if_pos (by omega)]
      exact hup'
  | @endOpCrash s _ ws k hp ho hrun =>
    have hup := hc.up hp
    show ∃ lh, Durable start _ (afterAll S₀ (c.commits start (ws.take k))) lh
    rcases hup.endOp_cases hrun with ⟨rfl, _, _⟩ | ⟨_, h₁, h₂, hcom⟩
    · rw [take_nil, commits_of_not_any rfl]
      exact ⟨[], hup.durable⟩
    · rcases hup.commit_take hcom k with ⟨hany, hd⟩ | ⟨hany, hd⟩
      · rw [commits_of_not_any hany]
        exact ⟨[], hd⟩
      · rw [commits_of_any hany]
        exact hd
  | crash hp => exact ⟨[], (hc.up hp).durable⟩
  | recover hp hrun =>
    obtain ⟨lh, hd⟩ := hc.down hp
    obtain ⟨s, h₂, hrun', _, hup, _⟩ := hd.recover
    cases hrun'.symm.trans hrun
    exact hup
  | @recoverCrash d _ ws k hp hrun =>
    obtain ⟨lh, hd⟩ := hc.down hp
    obtain ⟨s, h₂, hrun', hh₂, _⟩ := hd.recover
    cases hrun'.symm.trans hrun
    exact hd.finish_take hh₂ k

/-- **Crash atomicity.** After any number of transactions, crashes and recoveries, recovery returns
from the disk that is left, with the home blocks as the transactions whose header was written leave
them, in their order and each as a whole; while the machine is up, the changes since then are in the
cache only. -/
theorem recovery_applies_durable {as : List CrashAct} (hclean : headOf (S₀ start) = [])
    (h : Run (Step start) (boot S₀) as c) :
    (∀ d, c.power = .down d → ∃ s ws, recoverFromLog (Fs.boot start d) = .ok ((), s, ws) ∧
      ∀ b, Home start b → s.disk b = afterAll S₀ c.durable b ∧ s.view b = afterAll S₀ c.durable b) ∧
    (∀ s, c.power = .up s → ∀ b, Home start b → s.disk b = afterAll S₀ c.durable b ∧
      s.view b = applyWrites c.pending (afterAll S₀ c.durable) b) := by
  have hinv : c.Inv start S₀ := by
    refine Run.invariant ?_ (fun _ _ _ hi hstep => hstep.inv hi) h
    exact ⟨[], .empty hclean fun _ => rfl⟩
  constructor
  · intro d hp
    obtain ⟨lh, hd⟩ := hinv.down hp
    obtain ⟨s, h₂, hrun, _, hup, _⟩ := hd.recover
    exact ⟨s, _, hrun, fun b hb => ⟨hup.disk hb, hup.view hb⟩⟩
  · intro s hp b hb
    exact ⟨(hinv.up hp).disk hb, (hinv.up hp).view hb⟩

/-- A transaction of one block, cut off right after its header: recovery installs it. -/
theorem recovery_applies_durable_header : ∃ c d s ws,
    Run (Step 2) (boot fun _ => headBlock (fun _ => 0) [])
      [.recover, .beginOp, .write 40 (fun _ => 1), .endOpCrash 2] c ∧
    c.power = .down d ∧ recoverFromLog (Fs.boot 2 d) = .ok ((), s, ws) ∧ s.disk 40 = fun _ => 1 := by
  have hclean : headOf (headBlock (fun _ => 0) []) = [] :=
    headOf_headBlock _ (by decide) (by simp)
  have hdisk : Durable 2 (fun _ => headBlock (fun _ => 0) []) (fun _ => headBlock (fun _ => 0) []) [] :=
    .empty hclean fun _ => rfl
  obtain ⟨s₁, h₂, hrun₁, -, hup₁, hout₁⟩ := hdisk.recover
  have hlh₁ : s₁.log.lh = [] := hup₁.lh_eq_nil.mpr rfl
  have hadm : s₁.log.Admits := by
    unfold Log.Admits
    rw [hup₁.idle, hlh₁, hout₁]
    decide
  have hup₂ := hup₁.setCount (s₁.log.outstanding + 1)
  generalize hs₂ : s₁.setLog _ = s₂ at hup₂
  have hlh₂ : s₂.log.lh = [] := hup₂.lh_eq_nil.mpr rfl
  have hspare := hup₂.ok.cache.exists_spare (L := ∅)
    (fun x hx => absurd (pins_ne_zero.mp hx) (by simp [hlh₂])) (by decide)
  obtain ⟨s₃, hrun₃, hu⟩ := Fs.updateBlock_returns (b := 40) hup₂.ok (fun _ => 1) (.inr hspare)
    (by rw [hlh₂]; decide) (by rw [← hs₂]; exact Nat.le_add_left 1 _)
  have hhome : Home 2 40 := by decide
  have hup₃ := hup₂.write hhome (by decide) hrun₃
  have hlh₃ : s₃.log.lh = [40] := by
    rw [hu.log, hlh₂]
    rfl
  have hout₃ : s₃.log.outstanding = 1 := by
    rw [hu.log, ← hs₂, Fs.setLog_log, hout₁]
  obtain ⟨s₄, ws, h₁, h₃, hrun₄, hc⟩ := hup₃.endOp_commits (by rw [hout₃]) (by simp [hlh₃])
    (by rw [hlh₃]; decide)
  have hany : (ws.take 2).any (fun w => w.1 == 2) = true := by
    rw [hc.writes, hlh₃]
    simp [slotWrites]
  have hrun : Run (Step 2) (boot fun _ => headBlock (fun _ => 0) [])
      [.recover, .beginOp, .write 40 (fun _ => 1), .endOpCrash 2] _ :=
    (((Run.nil.snoc (.recover rfl hrun₁)).snoc (.beginOp rfl hadm)).snoc
      (.write rfl hhome (by decide) (hs₂ ▸ hrun₃))).snoc (.endOpCrash rfl (by rw [hout₃]) hrun₄)
  obtain ⟨s, ws', hrec, hblocks⟩ := (recovery_applies_durable hclean hrun).1 _ rfl
  refine ⟨_, _, s, ws', hrun, rfl, hrec, ?_⟩
  rw [(hblocks 40 hhome).1, commits_of_any hany]
  rfl

end Crashable

end Xv6
