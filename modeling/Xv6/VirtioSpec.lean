import Xv6.Virtio

/-!
# The descriptor protocol

What holds in every state of the driver and the device. A request in flight is at one place only: in
the `avail` ring, with the device, or in the `used` ring; `queue` is the list of the heads at all three
places together. A process that waits owns the three descriptors of its chain, and nobody else does.
-/

namespace Xv6.Virtio

open Function List

variable {P B : Type}

/-- The heads of the chains in flight, wherever they are. -/
def queue (d : Disk B) (fetched : List Nat) : List Nat :=
  d.avail.contents ++ fetched ++ d.used.contents

/-- **Descriptors**: a process that waits owns the three of its chain, and nobody else does. -/
structure Owned (d : Disk B) (chain : P → Option (Chain B)) : Prop where
  ok : ∀ {p c}, chain p = some c → ChainOk d c
  apart : ∀ {p q c c' i}, chain p = some c → chain q = some c' → i ∈ c.ids → i ∈ c'.ids → p = q
  cover : ∀ i, i < num → d.free i = true ∨ ∃ p c, chain p = some c ∧ i ∈ c.ids

/-- **Requests in flight**: each is at one place, and `info` tells its buffer until it is completed. -/
structure InFlight (d : Disk B) (fetched : List Nat) (chain : P → Option (Chain B)) : Prop where
  nodup : (queue d fetched).Nodup
  mem : ∀ h, h ∈ queue d fetched ↔ ∃ p c, chain p = some c ∧ c.i₀ = h ∧ d.busy c.req.b = true
  info : ∀ {p c}, chain p = some c → d.busy c.req.b = true → (d.info c.i₀).b = some c.req.b
  status : ∀ h ∈ d.used.contents, (d.info h).status = 0

/-- **Transfers**: the device moves the buffer of a request once, as it completes it. -/
structure Moved (d : Disk B) (fetched : List Nat) (asking : P → Option (Req B))
    (chain : P → Option (Chain B)) (moves : B → List Op) : Prop where
  fresh : ∀ {p r}, asking p = some r → moves r.b = []
  early : ∀ {p c}, chain p = some c → c.i₀ ∈ d.avail.contents ++ fetched → moves c.req.b = []
  late : ∀ {p c}, chain p = some c → c.i₀ ∉ d.avail.contents ++ fetched → moves c.req.b = [c.req.op]

/-- **Sleep-locks**: a process inside `virtio_disk_rw` holds the one of its buffer. -/
structure Locked (asking : P → Option (Req B)) (chain : P → Option (Chain B)) (holder : B → Option P) :
    Prop where
  askingHeld : ∀ {p r}, asking p = some r → holder r.b = some p
  chainHeld : ∀ {p c}, chain p = some c → holder c.req.b = some p
  one : ∀ p, asking p = none ∨ chain p = none

/-- The state of the protocol: `asking p` is the request of a process without descriptors, `chain p` the
chain a process waits for. -/
structure Inv (d : Disk B) (fetched : List Nat) (asking : P → Option (Req B))
    (chain : P → Option (Chain B)) (holder : B → Option P) (moves : B → List Op) : Prop
    extends Owned d chain, InFlight d fetched chain, Moved d fetched asking chain moves, Locked asking chain holder

/-- What a process has whose chain, or request, may have changed. -/
theorem update_eq_some [DecidableEq P] {A : Type} {f : P → Option A} {x : Option A} {p q : P} {y : A}
    (h : update f p x q = some y) : (q = p ∧ x = some y) ∨ (q ≠ p ∧ f q = some y) := by
  by_cases hq : q = p
  · subst hq
    rw [update_self] at h
    exact .inl ⟨rfl, h⟩
  · rw [update_of_ne hq] at h
    exact .inr ⟨hq, h⟩

theorem update_none_eq_some [DecidableEq P] {A : Type} {f : P → Option A} {p q : P} {y : A}
    (h : update f p none q = some y) : q ≠ p ∧ f q = some y :=
  (update_eq_some h).resolve_left nofun

theorem ChainOk.congr {d d' : Disk B} {c : Chain B} (h : ChainOk d c) (hfree : ∀ i ∈ c.ids, d'.free i = false)
    (hdesc : ∀ i ∈ c.ids, d'.desc i = d.desc i) (hops : d'.ops c.i₀ = d.ops c.i₀) : ChainOk d' c := by
  refine ⟨h.lt, h.nodup, hfree, ?_, ?_, ?_, hops.trans h.op⟩
  · rw [hdesc _ (by simp [Chain.ids]), h.first]
  · rw [hdesc _ (by simp [Chain.ids]), h.second]
  · rw [hdesc _ (by simp [Chain.ids]), h.third]

theorem avail_sublist (d : Disk B) (fetched : List Nat) :
    d.avail.contents.Sublist (queue d fetched) :=
  (sublist_append_left _ _).trans (sublist_append_left _ _)

theorem used_sublist (d : Disk B) (fetched : List Nat) :
    d.used.contents.Sublist (queue d fetched) := sublist_append_right _ _

theorem head_mem (c : Chain B) : c.i₀ ∈ c.ids := by
  simp [Chain.ids]

namespace Inv

variable {d d' : Disk B} {fetched fetched' : List Nat} {asking : P → Option (Req B)}
  {chain : P → Option (Chain B)} {holder : B → Option P} {moves : B → List Op}
  {p q : P} {c c' : Chain B} {r : Req B} {h : Nat} (hi : Inv d fetched asking chain holder moves)

include hi

/-- A chain that is not in flight has left all three places. -/
theorem notMem_queue (hc : chain p = some c) (hb : d.busy c.req.b = false) : c.i₀ ∉ queue d fetched := by
  intro hmem
  obtain ⟨q, c', hq, hhead, hbusy⟩ := (hi.mem _).mp hmem
  obtain rfl := hi.apart hc hq (head_mem c) (hhead ▸ head_mem c')
  rw [hc] at hq
  cases hq
  rw [hb] at hbusy
  cases hbusy

/-- The process of a buffer is determined by its sleep-lock. -/
theorem chain_of_b (hc : chain p = some c) (hc' : chain q = some c') (hb : c'.req.b = c.req.b) : q = p := by
  have hq := hi.chainHeld hc'
  rw [hb, hi.chainHeld hc] at hq
  exact (Option.some.inj hq).symm

/-- A buffer in flight is not asked for a second time. -/
theorem asking_of_b (hc : chain p = some c) (hr : asking q = some r) : r.b ≠ c.req.b := by
  intro hb
  have hq := hi.askingHeld hr
  rw [hb, hi.chainHeld hc] at hq
  cases hq
  rcases hi.one p with hone | hone
  · rw [hr] at hone
    cases hone
  · rw [hc] at hone
    cases hone

/-- Two chains with the same head are the same. -/
theorem chain_of_head (hc : chain p = some c) (hc' : chain q = some c') (hne : q ≠ p) : c'.i₀ ≠ c.i₀ :=
  fun heq => hne (hi.apart hc' hc (head_mem c') (heq ▸ head_mem c))

/-- The heads in flight are descriptors. -/
theorem queue_lt (hh : h ∈ queue d fetched) : h < num := by
  obtain ⟨p, c, hc, rfl, -⟩ := (hi.mem h).mp hh
  exact (hi.ok hc).lt _ (head_mem c)

/-- There is room in a ring for a head that is not in it. -/
theorem room {l : List Nat} (hl : l.Sublist (queue d fetched)) (hlt : h < num) (hnot : h ∉ l) :
    l.length < num := by
  have hnodup : (h :: l).Nodup := nodup_cons.mpr ⟨hnot, hi.nodup.sublist hl⟩
  have hsub : h :: l ⊆ List.range num := by
    intro x hx
    rw [mem_range]
    rcases mem_cons.mp hx with rfl | hx
    · exact hlt
    · exact hi.queue_lt (hl.subset hx)
  have hle := (subperm_of_subset hnodup hsub).length_le
  rw [length_cons, length_range] at hle
  omega

/-! ## The device and the interrupt -/

/-- No chain is written to. -/
theorem owned_congr (hfree : ∀ i, d'.free i = true ↔ d.free i = true)
    (hdesc : ∀ i, d.free i = false → d'.desc i = d.desc i) (hops : d'.ops = d.ops) : Owned d' chain := by
  refine ⟨fun hc => ?_, hi.apart, fun i hlt => ?_⟩
  · have hok := hi.ok hc
    refine hok.congr (fun i hin => ?_) (fun i hin => hdesc i (hok.taken i hin)) (by rw [hops])
    rw [← Bool.not_eq_true, hfree, Bool.not_eq_true]
    exact hok.taken i hin
  · rw [hfree]
    exact hi.cover i hlt

/-- A head goes from one place to another. -/
theorem inFlight_congr (hperm : (queue d' fetched').Perm (queue d fetched)) (hbusy : d'.busy = d.busy)
    (hinfo : ∀ x, (d'.info x).b = (d.info x).b) (hstatus : ∀ x ∈ d'.used.contents, (d'.info x).status = 0) :
    InFlight d' fetched' chain := by
  refine ⟨hperm.nodup_iff.mpr hi.nodup, fun x => ?_, fun hc hb => ?_, hstatus⟩
  · rw [hperm.mem_iff, hbusy]
    exact hi.mem x
  · rw [hbusy] at hb
    rw [hinfo]
    exact hi.info hc hb

theorem moved_congr (hmem : ∀ x, x ∈ d'.avail.contents ++ fetched' ↔ x ∈ d.avail.contents ++ fetched) :
    Moved d' fetched' asking chain moves :=
  ⟨hi.fresh, fun hc h => hi.early hc ((hmem _).mp h), fun hc h => hi.late hc fun h' => h ((hmem _).mpr h')⟩

/-- Descriptors that nobody has were written. -/
theorem sameRest (hs : SameRest d d') (hfree : ∀ i, d'.free i = true ↔ d.free i = true)
    (hdesc : ∀ i, d.free i = false → d'.desc i = d.desc i) :
    Inv d' fetched asking chain holder moves := by
  have hqueue : queue d' fetched = queue d fetched := by
    rw [queue, queue, hs.avail, hs.used]
  refine ⟨hi.owned_congr hfree hdesc hs.ops, hi.inFlight_congr (.of_eq hqueue) hs.busy (by simp [hs.info]) ?_,
    hi.moved_congr (by simp [hs.avail]), hi.toLocked⟩
  rw [hs.used, hs.info]
  exact hi.status

/-- The device fetches a head. -/
theorem fetch (ha : d.avail.nread ≠ d.avail.nwrite) :
    Inv { d with avail := d.avail.pop } (d.avail.front :: fetched) asking chain holder moves := by
  have hpos : 0 < d.avail.size := Nat.pos_of_ne_zero fun h => ha (RingBuffer.size_eq_zero.mp h)
  have hperm : (d.avail.pop.contents ++ d.avail.front :: fetched).Perm (d.avail.contents ++ fetched) := by
    rw [RingBuffer.contents_pop hpos]
    exact perm_middle
  exact ⟨hi.owned_congr (fun _ => Iff.rfl) (fun _ _ => rfl) rfl,
    hi.inFlight_congr (hperm.append_right _) rfl (fun _ => rfl) hi.status,
    hi.moved_congr fun _ => hperm.mem_iff, hi.toLocked⟩

/-- A completed head goes from the device to the `used` ring. -/
theorem completed_perm (hh : h ∈ fetched) : (completed d h h).used.contents = d.used.contents ++ [h] ∧
    (queue (completed d h h) (fetched.erase h)).Perm (queue d fetched) := by
  have hmem : h ∈ queue d fetched := mem_append_left _ (mem_append_right _ hh)
  have hused : h ∉ d.used.contents := fun hin =>
    (nodup_append.mp hi.nodup).2.2 h (mem_append_right _ hh) h hin rfl
  have hroom : d.used.size < num := by
    have := hi.room (used_sublist d fetched) (hi.queue_lt hmem) hused
    rwa [RingBuffer.length_contents] at this
  have hpush : (completed d h h).used.contents = d.used.contents ++ [h] :=
    RingBuffer.contents_push h (by decide) (by decide) hroom
  refine ⟨hpush, ?_⟩
  unfold queue
  rw [hpush, ← append_assoc]
  have hback : (h :: (d.avail.contents ++ fetched.erase h)).Perm (d.avail.contents ++ fetched) :=
    perm_middle.symm.trans ((perm_cons_erase hh).symm.append_left _)
  exact (perm_append_singleton _ _).trans (hback.append_right _)

variable [DecidableEq B]

/-- The head of a chain leaves the device, which has moved the buffer. -/
theorem completed_moved (hc : chain p = some c) (hh : c.i₀ ∈ fetched)
    (hgone : c.i₀ ∉ d.avail.contents ++ fetched.erase c.i₀) :
    Moved (completed d c.i₀ c.i₀) (fetched.erase c.i₀) asking chain
      (update moves c.req.b (moves c.req.b ++ [c.req.op])) := by
  have hother : ∀ {q c'}, chain q = some c' → q ≠ p →
      update moves c.req.b (moves c.req.b ++ [c.req.op]) c'.req.b = moves c'.req.b ∧
      (c'.i₀ ∈ d.avail.contents ++ fetched.erase c.i₀ ↔ c'.i₀ ∈ d.avail.contents ++ fetched) := by
    intro q c' hc' hq
    rw [mem_append, mem_append, mem_erase_of_ne (hi.chain_of_head hc hc' hq)]
    exact ⟨update_of_ne (fun hb => hq (hi.chain_of_b hc hc' hb)) _ _, Iff.rfl⟩
  refine ⟨fun hr => ?_, fun {q c'} hc' h => ?_, fun {q c'} hc' h => ?_⟩
  · rw [update_of_ne (hi.asking_of_b hc hr)]
    exact hi.fresh hr
  all_goals by_cases hq : q = p
  · subst hq
    rw [hc] at hc'
    cases hc'
    exact absurd h hgone
  · rw [(hother hc' hq).1]
    exact hi.early hc' ((hother hc' hq).2.mp h)
  · subst hq
    rw [hc] at hc'
    cases hc'
    rw [update_self, hi.early hc (mem_append_right _ hh)]
    rfl
  · rw [(hother hc' hq).1]
    exact hi.late hc' fun hin => h ((hother hc' hq).2.mpr hin)

/-- **The device completes a chain**: it finds the buffer of the request. -/
theorem complete (hh : h ∈ fetched) :
    ∃ p c, chain p = some c ∧ c.i₀ = h ∧ (d.desc h).addr = .op h ∧
      (d.desc (d.desc h).next).addr = .data c.req.b ∧
      (d.desc (d.desc (d.desc h).next).next).addr = .status h ∧
      Inv (completed d h h) (fetched.erase h) asking chain holder
        (update moves c.req.b (moves c.req.b ++ [d.ops h])) := by
  obtain ⟨p, c, hc, rfl, hbusy⟩ := (hi.mem h).mp (mem_append_left _ (mem_append_right _ hh))
  have hok := hi.ok hc
  obtain ⟨hpush, hperm⟩ := hi.completed_perm hh
  have hgone : c.i₀ ∉ d.avail.contents ++ fetched.erase c.i₀ := by
    have hdisj := (nodup_append.mp (hperm.nodup_iff.mpr hi.nodup)).2.2
    exact fun hin => hdisj _ hin _ (by rw [hpush]; exact mem_append_right _ (mem_singleton_self _)) rfl
  have hinfo : ∀ x, ((completed d c.i₀ c.i₀).info x).b = (d.info x).b ∧
      ((completed d c.i₀ c.i₀).info x).status = if x = c.i₀ then 0 else (d.info x).status := by
    intro x
    by_cases hx : x = c.i₀
    · simp [completed, hx]
    · simp [completed, hx]
  refine ⟨p, c, hc, rfl, by rw [hok.first], by rw [hok.first, hok.second],
    by rw [hok.first, hok.second, hok.third], hi.owned_congr (fun _ => Iff.rfl) (fun _ _ => rfl) rfl,
    hi.inFlight_congr hperm rfl (fun x => (hinfo x).1) fun x hx => ?_, ?_, hi.toLocked⟩
  · rw [(hinfo x).2]
    split
    · rfl
    · next hxh =>
        rw [hpush, mem_append, mem_singleton] at hx
        exact hi.status x (hx.resolve_right hxh)
  · rw [hok.op]
    exact hi.completed_moved hc hh hgone

/-- The head at the front of the `used` ring is taken out, and its buffer is not busy any more. -/
theorem intrRound_inFlight (hpos : 0 < d.used.size) (hc : chain p = some c) (hhead : c.i₀ = d.used.front) :
    InFlight { d with busy := update d.busy c.req.b false, used := d.used.pop } fetched chain := by
  have hpop := RingBuffer.contents_pop hpos
  have hperm : (queue d fetched).Perm (d.used.front ::
      queue { d with busy := update d.busy c.req.b false, used := d.used.pop } fetched) := by
    unfold queue
    rw [hpop]
    exact perm_middle
  obtain ⟨hnot, hnodup⟩ := nodup_cons.mp (hperm.nodup_iff.mp hi.nodup)
  have hbusy : ∀ {q c'}, chain q = some c' →
      (update d.busy c.req.b false c'.req.b = true ↔ q ≠ p ∧ d.busy c'.req.b = true) := by
    intro q c' hc'
    by_cases hq : q = p
    · subst hq
      rw [hc] at hc'
      cases hc'
      simp
    · have hb : c'.req.b ≠ c.req.b := fun hb => hq (hi.chain_of_b hc hc' hb)
      simp [hb, hq]
  refine ⟨hnodup, fun h => ⟨fun hmem => ?_, ?_⟩, fun hc' hb => hi.info hc' ((hbusy hc').mp hb).2,
    fun h hmem => hi.status h (by rw [hpop]; exact mem_cons_of_mem _ hmem)⟩
  · obtain ⟨q, c', hc', hh, hb⟩ := (hi.mem h).mp (hperm.mem_iff.mpr (mem_cons_of_mem _ hmem))
    refine ⟨q, c', hc', hh, (hbusy hc').mpr ⟨?_, hb⟩⟩
    rintro rfl
    rw [hc] at hc'
    cases hc'
    rw [hhead] at hh
    exact hnot (hh ▸ hmem)
  · rintro ⟨q, c', hc', hh, hb⟩
    obtain ⟨hq, hb⟩ := (hbusy hc').mp hb
    have hmem := hperm.mem_iff.mp ((hi.mem h).mpr ⟨q, c', hc', hh, hb⟩)
    exact (mem_cons.mp hmem).resolve_left fun heq =>
      hi.chain_of_head hc hc' hq (hh.trans (heq.trans hhead.symm))

/-- **A completion finds its own request**, which still waits. -/
theorem intrRound (hu : d.used.nread ≠ d.used.nwrite) :
    (∃ p c, chain p = some c ∧ c.i₀ = d.used.front ∧ d.busy c.req.b = true ∧
      (d.info d.used.front).b = some c.req.b ∧ (d.info d.used.front).status = 0) ∧
    ∃ d', Virtio.intrRound d = .ok d' ∧ Inv d' fetched asking chain holder moves := by
  have hpos : 0 < d.used.size := Nat.pos_of_ne_zero fun h => hu (RingBuffer.size_eq_zero.mp h)
  have hfront : d.used.front ∈ d.used.contents := by
    rw [RingBuffer.contents_pop hpos]
    exact mem_cons_self
  obtain ⟨p, c, hc, hhead, hbusy⟩ := (hi.mem _).mp ((used_sublist d fetched).subset hfront)
  have hinfo : (d.info d.used.front).b = some c.req.b := hhead ▸ hi.info hc hbusy
  have hstatus := hi.status _ hfront
  refine ⟨⟨p, c, hc, hhead, hbusy, hinfo, hstatus⟩,
    { d with busy := update d.busy c.req.b false, used := d.used.pop }, ?_,
    hi.owned_congr (fun _ => Iff.rfl) (fun _ _ => rfl) rfl, hi.intrRound_inFlight hpos hc hhead,
    hi.moved_congr fun _ => Iff.rfl, hi.toLocked⟩
  unfold Virtio.intrRound
  simp only [hstatus, hinfo, ne_eq, not_true_eq_false, if_false]

/-! ## The processes -/

/-- The sleep-lock of a buffer that no call is about changes hands. -/
theorem setHolder (b : B) (x : Option P) (hask : ∀ q r, asking q = some r → r.b ≠ b)
    (hchain : ∀ q c, chain q = some c → c.req.b ≠ b) :
    Inv d fetched asking chain (update holder b x) moves := by
  refine ⟨hi.toOwned, hi.toInFlight, hi.toMoved, fun hr => ?_, fun hc => ?_, hi.one⟩
  · rw [update_of_ne (hask _ _ hr)]
    exact hi.askingHeld hr
  · rw [update_of_ne (hchain _ _ hc)]
    exact hi.chainHeld hc

variable [DecidableEq P]

/-- A process calls `virtio_disk_rw`. -/
theorem call (hchain : chain p = none) (hh : holder r.b = some p) :
    Inv d fetched (update asking p (some r)) chain holder (update moves r.b []) := by
  have hother : ∀ {q c}, chain q = some c → c.req.b ≠ r.b := by
    intro q c hc hb
    have hq := hi.chainHeld hc
    rw [hb, hh] at hq
    cases hq
    rw [hchain] at hc
    cases hc
  refine ⟨hi.toOwned, hi.toInFlight, ⟨fun {q r'} hr => ?_, fun hc h => ?_, fun hc h => ?_⟩,
    fun hr => ?_, hi.chainHeld, fun q => ?_⟩
  · by_cases hb : r'.b = r.b
    · rw [hb, update_self]
    · rcases update_eq_some hr with ⟨-, ⟨⟩⟩ | ⟨-, hr⟩
      · exact absurd rfl hb
      · rw [update_of_ne hb]
        exact hi.fresh hr
  · rw [update_of_ne (hother hc)]
    exact hi.early hc h
  · rw [update_of_ne (hother hc)]
    exact hi.late hc h
  · rcases update_eq_some hr with ⟨rfl, ⟨⟩⟩ | ⟨-, hr⟩
    · exact hh
    · exact hi.askingHeld hr
  · by_cases hq : q = p
    · subst hq
      exact .inr hchain
    · rw [update_of_ne hq]
      exact hi.one q

omit [DecidableEq B] [DecidableEq P] in
/-- Nobody has a descriptor that was taken just now. -/
theorem notMem_took (htook : Took d d' c.ids) (hc' : chain q = some c') : ∀ i ∈ c'.ids, i ∉ c.ids := by
  intro i hin hl
  have htaken := (hi.ok hc').taken i hin
  rw [(htook.was i hl).2] at htaken
  cases htaken

omit [DecidableEq B] [DecidableEq P] in
theorem head_ne_took (htook : Took d d' c.ids) (hc' : chain q = some c') : c'.i₀ ≠ c.i₀ :=
  fun heq => hi.notMem_took htook hc' _ (head_mem c') (heq ▸ head_mem c)

/-- The descriptors that a request took are its own. -/
theorem submit_owned (hnone : chain p = none) (htook : Took d d' c.ids) :
    Owned (Virtio.submit d' c) (update chain p (some c)) := by
  have hfree : ∀ i, (Virtio.submit d' c).free i = true ↔ i ∉ c.ids ∧ d.free i = true := htook.free
  refine ⟨fun {q c'} hc => ?_, fun h₁ h₂ hin₁ hin₂ => ?_, fun i hlt => ?_⟩
  · rcases update_eq_some hc with ⟨rfl, ⟨⟩⟩ | ⟨-, hc'⟩
    · have hnd := htook.nodup
      simp only [Chain.ids, nodup_cons, mem_cons, not_mem_nil, or_false, not_or] at hnd
      refine ⟨fun i hin => (htook.was i hin).1, htook.nodup, fun i hin => ?_, ?_, ?_, ?_, ?_⟩
      · rw [← Bool.not_eq_true, hfree]
        exact fun hnot => hnot.1 hin
      · simp [Virtio.submit, hnd.1.1, hnd.1.2]
      · simp [Virtio.submit, hnd.2.1]
      · simp [Virtio.submit]
      · simp [Virtio.submit]
    · have hok := hi.ok hc'
      have hnot := hi.notMem_took htook hc'
      refine hok.congr (fun i hin => ?_) (fun i hin => ?_) ?_
      · rw [← Bool.not_eq_true, hfree, hok.taken i hin]
        simp
      · have hids := hnot i hin
        simp only [Chain.ids, mem_cons, not_mem_nil, or_false, not_or] at hids
        simp [Virtio.submit, hids, htook.desc]
      · show update d'.ops c.i₀ c.req.op c'.i₀ = _
        rw [update_of_ne (hi.head_ne_took htook hc'), htook.ops]
  · rcases update_eq_some h₁ with ⟨rfl, ⟨⟩⟩ | ⟨-, hold₁⟩ <;>
      rcases update_eq_some h₂ with ⟨rfl, ⟨⟩⟩ | ⟨-, hold₂⟩
    · rfl
    · exact absurd hin₁ (hi.notMem_took htook hold₂ _ hin₂)
    · exact absurd hin₂ (hi.notMem_took htook hold₁ _ hin₁)
    · exact hi.apart hold₁ hold₂ hin₁ hin₂
  · rw [hfree]
    by_cases hin : i ∈ c.ids
    · exact .inr ⟨p, c, update_self .., hin⟩
    · rcases hi.cover i hlt with hold | ⟨q, c', hc', hin'⟩
      · exact .inl ⟨hin, hold⟩
      · refine .inr ⟨q, c', ?_, hin'⟩
        rw [update_of_ne, hc']
        rintro rfl
        rw [hnone] at hc'
        cases hc'

/-- A request is in flight once it is in the ring. -/
theorem submit_inFlight (hnone : chain p = none) (hask : asking p = some c.req) (htook : Took d d' c.ids)
    (hpush : (Virtio.submit d' c).avail.contents = d.avail.contents ++ [c.i₀]) (hnew : c.i₀ ∉ queue d fetched) :
    InFlight (Virtio.submit d' c) fetched (update chain p (some c)) := by
  have hused : (Virtio.submit d' c).used = d.used := htook.used
  have hperm : (queue (Virtio.submit d' c) fetched).Perm (c.i₀ :: queue d fetched) := by
    unfold queue
    rw [hpush, hused, append_assoc, append_assoc, append_assoc, singleton_append]
    exact perm_middle
  have hbusy : ∀ {q c'}, chain q = some c' →
      ((Virtio.submit d' c).busy c'.req.b = true ↔ d.busy c'.req.b = true) := by
    intro q c' hc'
    show update d'.busy c.req.b true c'.req.b = true ↔ _
    rw [update_of_ne fun hb => hi.asking_of_b hc' hask hb.symm, htook.busy]
  have hinfo : ∀ x, x ≠ c.i₀ → (Virtio.submit d' c).info x = d.info x := by
    intro x hx
    show update d'.info c.i₀ _ x = _
    rw [update_of_ne hx, htook.info]
  refine ⟨hperm.nodup_iff.mpr (nodup_cons.mpr ⟨hnew, hi.nodup⟩), fun x => ?_, fun {q c'} hc hb => ?_,
    fun x hx => ?_⟩
  · rw [hperm.mem_iff, mem_cons]
    constructor
    · rintro (rfl | hmem)
      · exact ⟨p, c, update_self .., rfl, update_self ..⟩
      · obtain ⟨q, c', hc', hhead, hb⟩ := (hi.mem x).mp hmem
        refine ⟨q, c', ?_, hhead, (hbusy hc').mpr hb⟩
        rw [update_of_ne, hc']
        rintro rfl
        rw [hnone] at hc'
        cases hc'
    · rintro ⟨q, c', hc', hhead, hb⟩
      rcases update_eq_some hc' with ⟨rfl, ⟨⟩⟩ | ⟨-, hc'⟩
      · exact .inl hhead.symm
      · exact .inr ((hi.mem x).mpr ⟨q, c', hc', hhead, (hbusy hc').mp hb⟩)
  · rcases update_eq_some hc with ⟨rfl, ⟨⟩⟩ | ⟨-, hc'⟩
    · show (update d'.info c.i₀ ⟨some c.req.b, 0xff⟩ c.i₀).b = _
      rw [update_self]
    · rw [hinfo _ (hi.head_ne_took htook hc')]
      exact hi.info hc' ((hbusy hc').mp hb)
  · rw [hused] at hx
    rw [hinfo x fun heq => hnew (heq ▸ (used_sublist d fetched).subset hx)]
    exact hi.status x hx

omit [DecidableEq B] in
/-- The buffer of a new request was not moved yet. -/
theorem submit_moved {d₁ : Disk B} (hask : asking p = some c.req)
    (havail : d₁.avail.contents = d.avail.contents ++ [c.i₀]) (htook : Took d d' c.ids) :
    Moved d₁ fetched (update asking p none) (update chain p (some c)) moves := by
  have hmem : ∀ {q c'}, chain q = some c' →
      (c'.i₀ ∈ d₁.avail.contents ++ fetched ↔ c'.i₀ ∈ d.avail.contents ++ fetched) := by
    intro q c' hc'
    simp [havail, hi.head_ne_took htook hc']
  refine ⟨fun hr => hi.fresh (update_none_eq_some hr).2, fun hc h => ?_, fun hc h => ?_⟩
  · rcases update_eq_some hc with ⟨-, ⟨⟩⟩ | ⟨-, hc⟩
    · exact hi.fresh hask
    · exact hi.early hc ((hmem hc).mp h)
  · rcases update_eq_some hc with ⟨-, ⟨⟩⟩ | ⟨-, hc⟩
    · exact absurd (by simp [havail]) h
    · exact hi.late hc fun h' => h ((hmem hc).mpr h')

omit [DecidableEq B] in
theorem submit_locked (hask : asking p = some c.req) :
    Locked (update asking p none) (update chain p (some c)) holder := by
  refine ⟨fun hr => hi.askingHeld (update_none_eq_some hr).2, fun hc => ?_, fun q => ?_⟩
  · rcases update_eq_some hc with ⟨rfl, ⟨⟩⟩ | ⟨-, hc⟩
    · exact hi.askingHeld hask
    · exact hi.chainHeld hc
  · by_cases hq : q = p
    · subst hq
      exact .inl (update_self ..)
    · rw [update_of_ne hq, update_of_ne hq]
      exact hi.one q

/-- **A request is submitted** on three descriptors that were free. -/
theorem submit (hask : asking p = some c.req) (htook : Took d d' c.ids) :
    Inv (Virtio.submit d' c) fetched (update asking p none) (update chain p (some c)) holder moves := by
  have hnone : chain p = none := (hi.one p).resolve_left (by rw [hask]; exact Option.some_ne_none _)
  have hnew : c.i₀ ∉ queue d fetched := by
    intro hmem
    obtain ⟨q, c', hc', hhead, -⟩ := (hi.mem _).mp hmem
    exact hi.head_ne_took htook hc' hhead
  have hroom : d.avail.size < num := by
    have := hi.room (avail_sublist d fetched) (htook.was _ (head_mem c)).1
      fun hin => hnew ((avail_sublist d fetched).subset hin)
    rwa [RingBuffer.length_contents] at this
  have hpush : (Virtio.submit d' c).avail.contents = d.avail.contents ++ [c.i₀] := by
    show (d'.avail.push c.i₀).contents = _
    rw [htook.avail]
    exact RingBuffer.contents_push _ (by decide) (by decide) hroom
  exact ⟨hi.submit_owned hnone htook, hi.submit_inFlight hnone hask htook hpush hnew,
    hi.submit_moved hask hpush htook, hi.submit_locked hask⟩

omit [DecidableEq B] in
/-- The descriptors of a finished request are free. -/
theorem finish_owned (hc : chain p = some c) (hfree : ∀ i, d'.free i = true ↔ i ∈ c.ids ∨ d.free i = true)
    (hdesc : ∀ i, i ∉ c.ids → d'.desc i = d.desc i) (hops : d'.ops = d.ops) :
    Owned d' (update chain p none) := by
  refine ⟨fun hc₁ => ?_, fun h₁ h₂ => hi.apart (update_none_eq_some h₁).2 (update_none_eq_some h₂).2,
    fun i hlt => ?_⟩
  · obtain ⟨hq, hc'⟩ := update_none_eq_some hc₁
    have hok := hi.ok hc'
    have hnot : ∀ i ∈ _, i ∉ c.ids := fun i hin hin' => hq (hi.apart hc' hc hin hin')
    refine hok.congr (fun i hin => ?_) (fun i hin => hdesc i (hnot i hin)) (by rw [hops])
    rw [← Bool.not_eq_true, hfree, hok.taken i hin]
    simpa using hnot i hin
  · rw [hfree]
    by_cases hin : i ∈ c.ids
    · exact .inl (.inl hin)
    · rcases hi.cover i hlt with hold | ⟨q, c', hc', hin'⟩
      · exact .inl (.inr hold)
      · refine .inr ⟨q, c', ?_, hin'⟩
        rw [update_of_ne, hc']
        rintro rfl
        rw [hc] at hc'
        cases hc'
        exact hin hin'

omit [DecidableEq B] in
/-- A finished request is not in flight. -/
theorem finish_inFlight (hc : chain p = some c) (hb : d.busy c.req.b = false)
    (hqueue : queue d' fetched = queue d fetched) (hused : d'.used = d.used) (hbusy : d'.busy = d.busy)
    (hinfo : d'.info = update d.info c.i₀ { d.info c.i₀ with b := none }) :
    InFlight d' fetched (update chain p none) := by
  refine ⟨hqueue ▸ hi.nodup, fun x => ?_, fun hc₁ hb' => ?_, fun x hx => ?_⟩
  · rw [hqueue, hbusy, hi.mem]
    constructor
    · rintro ⟨q, c', hc', hhead, hbusy'⟩
      refine ⟨q, c', ?_, hhead, hbusy'⟩
      rw [update_of_ne, hc']
      rintro rfl
      rw [hc] at hc'
      cases hc'
      rw [hb] at hbusy'
      cases hbusy'
    · rintro ⟨q, c', hc', hhead, hbusy'⟩
      exact ⟨q, c', (update_none_eq_some hc').2, hhead, hbusy'⟩
  · obtain ⟨hq, hc'⟩ := update_none_eq_some hc₁
    rw [hbusy] at hb'
    rw [hinfo, update_of_ne (hi.chain_of_head hc hc' hq)]
    exact hi.info hc' hb'
  · rw [hused] at hx
    have hstatus := hi.status x hx
    rw [hinfo]
    by_cases hxc : x = c.i₀
    · rw [hxc, update_self]
      rw [hxc] at hstatus
      exact hstatus
    · rwa [update_of_ne hxc]

omit [DecidableEq B] in
/-- **A request is finished**: its buffer was transferred, and its descriptors become free. -/
theorem finish (hc : chain p = some c) (hb : d.busy c.req.b = false) :
    moves c.req.b = [c.req.op] ∧ ∃ d', Virtio.finish d c = .ok d' ∧
      Inv d' fetched asking (update chain p none) holder moves := by
  have hgone := hi.notMem_queue hc hb
  have hlate := hi.late hc fun hin => hgone (mem_append_left _ hin)
  -- `free_chain` runs after the entry of `info` was cleared
  obtain ⟨d', hfree, hback⟩ := freeChain_spec
    (d := { d with info := update d.info c.i₀ { d.info c.i₀ with b := none } })
    ((hi.ok hc).congr (hi.ok hc).taken (fun _ _ => rfl) rfl)
  have hqueue : queue d' fetched = queue d fetched := by
    rw [queue, queue, hback.avail, hback.used]
  have havail : d'.avail = d.avail := hback.avail
  refine ⟨hlate, d', hfree, hi.finish_owned hc hback.free hback.desc hback.ops,
    hi.finish_inFlight hc hb hqueue hback.used hback.busy hback.info, ⟨hi.fresh, fun h => ?_, fun h => ?_⟩,
    hi.askingHeld, fun h => hi.chainHeld (update_none_eq_some h).2, fun q => ?_⟩
  · rw [havail]
    exact hi.early (update_none_eq_some h).2
  · rw [havail]
    exact hi.late (update_none_eq_some h).2
  · by_cases hq : q = p
    · subst hq
      exact .inr (update_self ..)
    · rw [update_of_ne hq]
      exact hi.one q

end Inv

/-! ## Runs -/

section Runs

variable [DecidableEq P] [DecidableEq B] {s s' : State P B} {p : P} {a : Act P B}
  {as : List (Act P B)}

/-- The invariant of a state. -/
def State.Ok (s : State P B) : Prop :=
  Inv s.disk s.fetched (fun p => (s.point p).asking) (fun p => (s.point p).chain) s.holder s.moves

omit [DecidableEq B] in
theorem move_asking (s : State P B) (p : P) (x : Point B) :
    (fun q => ((s.move p x).point q).asking) =
      update (fun q => (s.point q).asking) p x.asking := by
  funext q
  by_cases hq : q = p
  · simp [State.move, hq]
  · simp [State.move, hq]

omit [DecidableEq B] in
theorem move_chain (s : State P B) (p : P) (x : Point B) :
    (fun q => ((s.move p x).point q).chain) =
      update (fun q => (s.point q).chain) p x.chain := by
  funext q
  by_cases hq : q = p
  · simp [State.move, hq]
  · simp [State.move, hq]

omit [DecidableEq B] in
/-- A process goes to another point of the same kind. -/
theorem State.Ok.move (h : s.Ok) {x y : Point B} (hp : s.point p = x) (hask : y.asking = x.asking)
    (hchain : y.chain = x.chain) : (s.move p y).Ok := by
  unfold State.Ok
  rw [move_asking, move_chain, hask, hchain, ← hp, update_eq_self, update_eq_self]
  exact h

/-- Every step of a process, an interrupt or the device keeps the protocol. -/
theorem State.Ok.step (h : s.Ok) (hstep : Step s a s') : s'.Ok := by
  cases hstep with
  | @lockBuf p b hh =>
    apply Inv.setHolder h
    · rintro q r hr rfl
      rw [h.askingHeld hr] at hh
      cases hh
    · rintro q c hc rfl
      rw [h.chainHeld hc] at hh
      cases hh
  | @unlockBuf p b hh hp =>
    apply Inv.setHolder h
    · rintro q r hr rfl
      rw [h.askingHeld hr] at hh
      cases hh
      rw [hp] at hr
      cases hr
    · rintro q c hc rfl
      rw [h.chainHeld hc] at hh
      cases hh
      rw [hp] at hc
      cases hc
  | @call p r hp hh =>
    have hcall := Inv.call h (p := p) (r := r) (by rw [hp]; rfl) hh
    have hchain : update (fun q => (s.point q).chain) p (Point.entering r).chain =
        fun q => (s.point q).chain := by
      rw [← show (s.point p).chain = (Point.entering r).chain by rw [hp]; rfl]
      exact update_eq_self _ _
    show Inv s.disk s.fetched (fun q => ((s.move p (.entering r)).point q).asking)
      (fun q => ((s.move p (.entering r)).point q).chain) s.holder _
    rw [move_asking, move_chain, hchain]
    exact hcall
  | acquire hp hl => exact h.move hp rfl rfl
  | @starve p r d hp ha =>
    obtain ⟨r', d', hal, hspec⟩ := alloc3Desc_spec s.disk
    rw [ha] at hal
    cases hal
    have hrest := Inv.sameRest h hspec.1 hspec.2.1 hspec.2.2
    exact State.Ok.move (s := s.setDisk d) hrest hp rfl rfl
  | wakeAlloc hp => exact h.move hp rfl rfl
  | @submit p r d i₀ i₁ i₂ hp ha =>
    obtain ⟨r', d', hal, hspec⟩ := alloc3Desc_spec s.disk
    rw [ha] at hal
    cases hal
    have hsub := Inv.submit h (p := p) (c := ⟨r, i₀, i₁, i₂⟩) (by rw [hp]; rfl) hspec.1
    show Inv _ s.fetched (fun q => ((s.move p (.wait ⟨r, i₀, i₁, i₂⟩)).point q).asking)
      (fun q => ((s.move p (.wait ⟨r, i₀, i₁, i₂⟩)).point q).chain) s.holder s.moves
    rw [move_asking, move_chain]
    exact hsub
  | sleep hp hb => exact h.move hp rfl rfl
  | wake hp => exact h.move hp rfl rfl
  | reacquire hp hl => exact h.move hp rfl rfl
  | @ret p c d hp hb hf =>
    obtain ⟨-, d', hfin, hinv⟩ := Inv.finish h (p := p) (c := c) (by rw [hp]; rfl)
      (Bool.not_eq_true _ ▸ hb)
    rw [hf] at hfin
    cases hfin
    have hask : update (fun q => (s.point q).asking) p (Point.outside (B := B)).asking =
        fun q => (s.point q).asking := by
      rw [← show (s.point p).asking = (Point.outside (B := B)).asking by rw [hp]; rfl]
      exact update_eq_self _ _
    show Inv d s.fetched (fun q => ((s.move p .outside).point q).asking)
      (fun q => ((s.move p .outside).point q).chain) s.holder s.moves
    rw [move_asking, move_chain, hask]
    exact hinv
  | intrEnter hl => exact h
  | @intrRound d hl hu hr =>
    obtain ⟨-, d', hround, hinv⟩ := Inv.intrRound h hu
    rw [hr] at hround
    cases hround
    exact hinv
  | intrLeave hl hu => exact h
  | fetch ha => exact Inv.fetch h ha
  | @complete h' i j b hh hop hdata hstatus =>
    obtain ⟨p, c, -, -, hop', hdata', hstatus', hinv⟩ := Inv.complete h hh
    rw [hop'] at hop
    rw [hdata'] at hdata
    rw [hstatus'] at hstatus
    cases hop
    cases hdata
    cases hstatus
    exact hinv

omit [DecidableEq P] [DecidableEq B] in
/-- After `virtio_disk_init` nothing is in flight. -/
theorem State.Ok.init {d : Disk B} (hd : Init d) : (State.init (P := P) d).Ok := by
  have hempty : ∀ {r : RingBuffer Nat 16 num}, r.nread = 0 ∧ r.nwrite = 0 → r.contents = [] := by
    rintro r ⟨hr, hw⟩
    have hsize : r.size = 0 := RingBuffer.size_eq_zero.mpr (hr.trans hw.symm)
    rw [RingBuffer.contents, hsize]
    rfl
  have havail := hempty hd.avail
  have hused := hempty hd.used
  have hqueue : queue d [] = [] := by
    rw [queue, havail, hused]
    rfl
  -- nobody asks and nobody waits
  have hasking {p : P} {r} : ((State.init d).point p).asking ≠ some r :=
    (Option.some_ne_none r).symm
  have hchain {p : P} {c} : ((State.init d).point p).chain ≠ some c :=
    (Option.some_ne_none c).symm
  refine ⟨⟨fun h => absurd h hchain, fun h => absurd h hchain, fun i hlt => .inl (hd.free i hlt)⟩,
    ⟨?_, fun x => ?_, fun h => absurd h hchain, fun x hx => ?_⟩,
    ⟨fun h => absurd h hasking, fun h => absurd h hchain, fun h => absurd h hchain⟩,
    fun h => absurd h hasking, fun h => absurd h hchain, fun _ => .inl rfl⟩
  · show (queue d []).Nodup
    rw [hqueue]
    exact nodup_nil
  · show x ∈ queue d [] ↔ _
    rw [hqueue]
    refine iff_of_false not_mem_nil ?_
    rintro ⟨p, c, hc, -⟩
    exact hchain hc
  · exact absurd (hused ▸ hx) not_mem_nil

theorem State.Ok.run {d : Disk B} (hd : Init d) (hrun : Transition.Run Step (.init d) as s) : s.Ok :=
  hrun.invariant (.init hd) fun _ _ _ h hstep => h.step hstep

/-- **The descriptor protocol.** In every run of processes, interrupts and the device: a descriptor is
free or belongs to exactly one chain in flight, whose three descriptors differ; `alloc3_desc` and
`free_chain` do not panic; a completion finds the entry of its own request, which still waits; a call
returns only after the device moved its buffer, once, as asked; and when no request is left all
descriptors are free. -/
theorem virtio_protocol {d : Disk B} (hd : Init d) (hrun : Transition.Run Step (.init d) as s) :
    (∀ i, i < num → (s.disk.free i = true ∧ ∀ p c, (s.point p).chain = some c → i ∉ c.ids) ∨
      (s.disk.free i = false ∧ ∃ p c, (s.point p).chain = some c ∧ i ∈ c.ids ∧ c.ids.Nodup ∧
        ∀ q c', (s.point q).chain = some c' → i ∈ c'.ids → q = p)) ∧
    (∃ r d', alloc3Desc s.disk = .ok (r, d')) ∧
    (∀ p c, s.point p = .wait c → s.disk.busy c.req.b ≠ true →
      s.moves c.req.b = [c.req.op] ∧ ∃ d', finish s.disk c = .ok d') ∧
    (s.disk.used.nread ≠ s.disk.used.nwrite → ∃ p c, (s.point p).chain = some c ∧
      c.i₀ = s.disk.used.front ∧ (s.disk.info s.disk.used.front).b = some c.req.b ∧
      s.disk.busy c.req.b = true ∧ ∃ d', intrRound s.disk = .ok d') ∧
    ((∀ p, (s.point p).chain = none) → ∀ i, i < num → s.disk.free i = true) := by
  have hok := State.Ok.run hd hrun
  refine ⟨?_, ?_, ?_, ?_, ?_⟩
  · intro i hlt
    cases hf : s.disk.free i with
    | true =>
      refine .inl ⟨rfl, fun p c hc hin => ?_⟩
      rw [(hok.ok hc).taken i hin] at hf
      cases hf
    | false =>
      rcases hok.cover i hlt with hfree | ⟨p, c, hc, hin⟩
      · rw [hf] at hfree
        cases hfree
      · exact .inr ⟨rfl, p, c, hc, hin, (hok.ok hc).nodup,
          fun q c' hc' hin' => hok.apart hc' hc hin' hin⟩
  · obtain ⟨r, d', hal, -⟩ := alloc3Desc_spec s.disk
    exact ⟨r, d', hal⟩
  · intro p c hp hb
    obtain ⟨hmoves, d', hfin, -⟩ := Inv.finish hok (p := p) (c := c) (by rw [hp]; rfl)
      (Bool.not_eq_true _ ▸ hb)
    exact ⟨hmoves, d', hfin⟩
  · intro hu
    obtain ⟨⟨p, c, hc, hhead, hbusy, hinfo, -⟩, d', hround, -⟩ := Inv.intrRound hok hu
    exact ⟨p, c, hc, hhead, hinfo, hbusy, d', hround⟩
  · intro hnone i hlt
    refine (hok.cover i hlt).resolve_right ?_
    rintro ⟨p, c, hc, -⟩
    rw [hnone p] at hc
    cases hc

/-- A disk with empty rings. -/
def emptyDisk : Disk Unit :=
  ⟨fun _ => ⟨.null, 0, false, false, 0⟩, ⟨fun _ => 0, 0, 0⟩, ⟨fun _ => 0, 0, 0⟩, fun _ => true,
    fun _ => ⟨none, 0⟩, fun _ => ⟨false, 0⟩, fun _ => false⟩

/-- One process reads a block: when it finds `b->disk` clear, the device has moved the block. -/
theorem virtio_protocol_read : ∃ (as : List (Act Unit Unit)) (s : State Unit Unit) (c : Chain Unit),
    Transition.Run Step (.init emptyDisk) as s ∧ s.point () = .wait c ∧
      s.disk.busy c.req.b ≠ true ∧ s.moves c.req.b = [c.req.op] := by
  have hstart : Transition.Run Step (.init emptyDisk) ([] : List (Act Unit Unit)) _ := .nil
  have hrun := hstart.snoc (.lockBuf (p := ()) (b := ()) rfl)
    |>.snoc (.call (p := ()) (r := ⟨(), false, 7⟩) rfl rfl)
    |>.snoc (.acquire (p := ()) (r := ⟨(), false, 7⟩) rfl rfl)
    |>.snoc (.submit (p := ()) (r := ⟨(), false, 7⟩) rfl rfl)
    |>.snoc (.sleep (p := ()) (c := ⟨⟨(), false, 7⟩, 0, 1, 2⟩) rfl rfl)
    |>.snoc (.fetch (by decide))
    |>.snoc (.complete (h := 0) (mem_singleton_self 0) rfl rfl rfl)
    |>.snoc (.intrEnter rfl)
    |>.snoc (.intrRound rfl (by decide) rfl)
    |>.snoc (.intrLeave rfl rfl)
    |>.snoc (.wake (p := ()) (c := ⟨⟨(), false, 7⟩, 0, 1, 2⟩) rfl)
    |>.snoc (.reacquire (p := ()) (c := ⟨⟨(), false, 7⟩, 0, 1, 2⟩) rfl rfl)
  have hinit : Init emptyDisk := ⟨fun _ _ => rfl, ⟨rfl, rfl⟩, ⟨rfl, rfl⟩⟩
  exact ⟨_, _, _, hrun, rfl, by decide, ((virtio_protocol hinit hrun).2.2.1 () _ rfl (by decide)).1⟩

end Runs

end Xv6.Virtio
