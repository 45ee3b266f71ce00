import Rpprof.Heap.Names

/-!
# Live entries under threads

The live entry of each block while threads allocate, free and move blocks.  A free
takes its entry out before it releases the address; a move releases the old address
inside the inner allocator and takes the entry out afterwards.  In between the address
may be another thread's, and if that thread has recorded its sample by then, it is that
record which comes out.

## Main definitions

* `Pool.Owned` — who is busy with which block.
* `Pool.Recorded` — the live entries against the blocks, with operations under way.
* `Pool.steals` — a move takes out the entry of another allocation.
* `Pool.Faithful` — the live entries are those of the sampled blocks.

## Main results

* `Pool.owned_step` — ownership is kept by every step.
* `Pool.recorded_step` — the entries are kept by every step that does not steal.
* `Pool.faithful_of_reach` — so they are faithful whenever no operation is under way.
-/

namespace Rpprof

open HeapState (capture)

variable {Thread : Type}

namespace Pc

/-- The block an operation is about. -/
def about : Pc → Option ℕ
  | sampling _ ptr _ _ => some ptr
  | removing _ ptr .release => some ptr
  | removing _ _ (.sample newPtr _ _) => some newPtr
  | releasing ptr => some ptr
  | _ => none

/-- The address whose entry a `realloc` is about to take out. -/
def movesOff : Pc → Option ℕ
  | removing .remove ptr (.sample _ _ _) => some ptr
  | _ => none

theorem about_afterRemoving (at_ : RemoveStep) (ptr : ℕ) (after : After) :
    (afterRemoving ptr after).about = (removing at_ ptr after).about := by
  cases after <;> rfl

theorem about_afterShard (i : Fin numShards) : (afterShard i).about = none := by
  unfold afterShard
  split <;> rfl

end Pc

/-- What a thread's operation knows of its block: a sample being recorded, or a free. -/
def Owns (blocks : ℕ → Option (Cell Thread)) (t : Thread) : Pc → Prop
  | .sampling _ ptr size ips => blocks ptr = some ⟨size, some ips, .recording t⟩
  | .removing _ ptr .release => ∃ c, blocks ptr = some c ∧ c.phase = .freeing t
  | .removing _ _ (.sample newPtr newSize ips) =>
    blocks newPtr = some ⟨newSize, some ips, .recording t⟩
  | .releasing ptr => ∃ c, blocks ptr = some c ∧ c.phase = .freeing t
  | _ => True

/-- The block is in the hands of the thread's operation. -/
def Cell.BusyWith (c : Cell Thread) (t : Thread) : Prop :=
  c.phase = .recording t ∨ c.phase = .freeing t

theorem Cell.not_busyWith_of_ready {c : Cell Thread} (h : c.phase = .ready) (t : Thread) :
    ¬c.BusyWith t := by
  rintro (hb | hb) <;> rw [h] at hb <;> cases hb

namespace Owns

variable {blocks blocks' : ℕ → Option (Cell Thread)} {t : Thread} {pc : Pc}

/-- Only a thread's own block matters to it. -/
theorem frame (ho : Owns blocks t pc)
    (hsame : ∀ p c, blocks p = some c → c.BusyWith t → blocks' p = blocks p) :
    Owns blocks' t pc := by
  have hrec : ∀ p size sample, blocks p = some ⟨size, sample, .recording t⟩ →
      blocks' p = some ⟨size, sample, .recording t⟩ := by
    intro p size sample hp
    rw [hsame p _ hp (Or.inl rfl), hp]
  have hfree : ∀ p, (∃ c, blocks p = some c ∧ c.phase = .freeing t) →
      ∃ c, blocks' p = some c ∧ c.phase = .freeing t := by
    rintro p ⟨c, hc, hphase⟩
    exact ⟨c, by rw [hsame p c hc (Or.inr hphase), hc], hphase⟩
  cases pc with
  | sampling at_ ptr size ips => exact hrec _ _ _ ho
  | removing at_ ptr after =>
    cases after with
    | release => exact hfree _ ho
    | sample newPtr newSize ips => exact hrec _ _ _ ho
  | releasing ptr => exact hfree _ ho
  | _ => trivial

theorem afterRemoving {at_ : RemoveStep} {ptr : ℕ} {after : After}
    (ho : Owns blocks t (.removing at_ ptr after)) :
    Owns blocks t (Pc.afterRemoving ptr after) := by
  cases after with
  | release => exact ho
  | sample newPtr newSize ips => exact ho

/-- Until it ends, an operation goes on owning the same block. -/
theorem next {h h' : HeapState} {mapFree callsitesFree : Bool} {pc' : Pc}
    (ho : Owns blocks t pc) (hnext : pc.Next h mapFree callsitesFree h' pc') :
    Owns blocks t pc' := by
  cases hnext with
  | insert => trivial
  | removeNone _ => exact ho.afterRemoving
  | settleNone _ => exact ho.afterRemoving
  | subBytes => exact ho.afterRemoving
  | clearShard =>
    unfold Pc.afterShard
    split <;> trivial
  | removeSome _ => rename_i ptr after id allocSize _; cases after <;> exact ho
  | settleSome _ => rename_i ptr after id allocSize d _; cases after <;> exact ho
  | subObjects => rename_i ptr after id allocSize; cases after <;> exact ho
  | _ => first | exact ho | trivial

end Owns

namespace Pool

variable [DecidableEq Thread]

/-- Each operation owns the block it is about, and a block that is busy is busy with the
operation that is about it. -/
structure Owned (blocks : ℕ → Option (Cell Thread)) (pc : Thread → Pc) : Prop where
  owns : ∀ t, Owns blocks t (pc t)
  busy : ∀ p c t, blocks p = some c → c.BusyWith t → (pc t).about = some p

variable {blocks blocks' : ℕ → Option (Cell Thread)} {pc : Thread → Pc} {t : Thread}

/-- A thread changes blocks that no other operation owns, and is about what it owns. -/
theorem Owned.of_update (ho : Owned blocks pc) {pc' : Pc}
    (hothers : ∀ u, u ≠ t → ∀ p c, blocks p = some c → c.BusyWith u → blocks' p = blocks p)
    (hback : ∀ u, u ≠ t → ∀ p c, blocks' p = some c → c.BusyWith u → blocks p = some c)
    (hself : Owns blocks' t pc')
    (hbusy : ∀ p c, blocks' p = some c → c.BusyWith t → pc'.about = some p) :
    Owned blocks' (Function.update pc t pc') := by
  constructor
  · intro u
    by_cases hu : u = t
    · rw [hu, Function.update_self]
      exact hself
    · rw [Function.update_of_ne hu]
      exact (ho.owns u).frame (hothers u hu)
  · intro p c u hc hb
    by_cases hu : u = t
    · rw [hu, Function.update_self]
      rw [hu] at hb
      exact hbusy p c hc hb
    · rw [Function.update_of_ne hu]
      exact ho.busy p c u (hback u hu p c hc hb) hb

omit [DecidableEq Thread] in
/-- An idle thread is busy with no block. -/
theorem Owned.not_busy_of_idle (ho : Owned blocks pc) (ht : pc t = .idle) {p : ℕ}
    {c : Cell Thread} (hc : blocks p = some c) : ¬c.BusyWith t := by
  intro hb
  have := ho.busy p c t hc hb
  rw [ht] at this
  cases this

/-- An idle thread takes one block, free or ready before, into its hands. -/
theorem Owned.take (ho : Owned blocks pc) (ht : pc t = .idle) {p : ℕ} {c : Cell Thread}
    {pc' : Pc} (hold : ∀ c₀, blocks p = some c₀ → c₀.phase = .ready)
    (hself : Owns (Function.update blocks p (some c)) t pc') (habout : pc'.about = some p)
    (hc : c.BusyWith t) :
    Owned (Function.update blocks p (some c)) (Function.update pc t pc') := by
  refine ho.of_update ?_ ?_ hself ?_
  · intro u _ q c₁ hq hb
    refine Function.update_of_ne ?_ _ _
    rintro rfl
    exact Cell.not_busyWith_of_ready (hold c₁ hq) u hb
  · intro u hu q c₁ hq hb
    by_cases hqp : q = p
    · rw [hqp, Function.update_self, Option.some.injEq] at hq
      rw [← hq] at hb
      -- one block is not in two hands
      exfalso
      rcases hc with hc | hc <;> rcases hb with hb | hb <;> rw [hc] at hb <;> cases hb <;>
        exact hu rfl
    · rwa [Function.update_of_ne hqp] at hq
  · intro q c₁ hq hb
    by_cases hqp : q = p
    · rw [hqp, habout]
    · rw [Function.update_of_ne hqp] at hq
      exact absurd hb (ho.not_busy_of_idle ht hq)

omit [DecidableEq Thread] in
/-- A ready block may go away, or a ready one appear, without anybody noticing. -/
theorem Owned.setReady (ho : Owned blocks pc) {p : ℕ} {x : Option (Cell Thread)}
    (hold : ∀ c₀, blocks p = some c₀ → c₀.phase = .ready)
    (hx : ∀ c, x = some c → c.phase = .ready) : Owned (Function.update blocks p x) pc := by
  constructor
  · intro u
    refine (ho.owns u).frame fun q c hq hb => Function.update_of_ne ?_ _ _
    rintro rfl
    exact Cell.not_busyWith_of_ready (hold c hq) u hb
  · intro q c u hq hb
    by_cases hqp : q = p
    · rw [hqp, Function.update_self] at hq
      exact absurd hb (Cell.not_busyWith_of_ready (hx c hq) u)
    · rw [Function.update_of_ne hqp] at hq
      exact ho.busy q c u hq hb

/-- An operation ends, and its block is ready or gone. -/
theorem Owned.finish (ho : Owned blocks pc) {p : ℕ} {x : Option (Cell Thread)} {c₀ : Cell Thread}
    (hp : blocks p = some c₀) (hb₀ : c₀.BusyWith t) (hx : ∀ c, x = some c → c.phase = .ready) :
    Owned (Function.update blocks p x) (Function.update pc t .idle) := by
  have hother : ∀ u, u ≠ t → ¬c₀.BusyWith u := by
    intro u hu hb
    rcases hb₀ with h₀ | h₀ <;> rcases hb with h | h <;> rw [h₀] at h <;> cases h <;> exact hu rfl
  refine ho.of_update ?_ ?_ trivial ?_
  · intro u hu q c hq hb
    refine Function.update_of_ne ?_ _ _
    rintro rfl
    rw [hp, Option.some.injEq] at hq
    rw [← hq] at hb
    exact hother u hu hb
  · intro u _ q c hq hb
    by_cases hqp : q = p
    · rw [hqp, Function.update_self] at hq
      exact absurd hb (Cell.not_busyWith_of_ready (hx c hq) u)
    · rwa [Function.update_of_ne hqp] at hq
  · intro q c hq hb
    -- the block that just ended was the only one of the thread
    by_cases hqp : q = p
    · rw [hqp, Function.update_self] at hq
      exact absurd hb (Cell.not_busyWith_of_ready (hx c hq) t)
    · rw [Function.update_of_ne hqp] at hq
      have h₁ := ho.busy q c t hq hb
      rw [ho.busy p c₀ t hp hb₀, Option.some.injEq] at h₁
      exact absurd h₁.symm hqp

/-- An operation goes on with the same block. -/
theorem Owned.goOn (ho : Owned blocks pc) {pc' : Pc} (hself : Owns blocks t pc')
    (habout : pc'.about = (pc t).about) : Owned blocks (Function.update pc t pc') := by
  refine ho.of_update (fun _ _ _ _ _ _ => rfl) (fun _ _ _ _ hq _ => hq) hself ?_
  intro p c hc hb
  rw [habout]
  exact ho.busy p c t hc hb

omit [DecidableEq Thread] in
theorem settle_of_goesOn {p : Pc}
    (hins : ∀ id ptr size ips, p ≠ .sampling (.insert id) ptr size ips)
    (hrel : ∀ ptr, p ≠ .releasing ptr) (blocks : ℕ → Option (Cell Thread)) :
    settle p blocks = blocks := by
  unfold settle
  split
  · next id ptr size ips => exact absurd rfl (hins id ptr size ips)
  · next ptr => exact absurd rfl (hrel ptr)
  · rfl

/-- Ownership while a thread goes on inside the profiler. -/
theorem owned_advance {h h' : HeapState} {mapFree callsitesFree : Bool} {pc' : Pc}
    (ho : Owned blocks pc) (hnext : (pc t).Next h mapFree callsitesFree h' pc') :
    Owned (settle (pc t) blocks) (Function.update pc t pc') := by
  have hown := ho.owns t
  have hself := hown.next hnext
  have hgo : ∀ p, p = pc t → (∀ id ptr size ips, p ≠ .sampling (.insert id) ptr size ips) →
      (∀ ptr, p ≠ .releasing ptr) → pc'.about = p.about →
      Owned (settle p blocks) (Function.update pc t pc') := by
    rintro p rfl hins hrel habout
    rw [settle_of_goesOn hins hrel]
    exact ho.goOn hself habout
  generalize hp : pc t = p at hnext hown
  have hgo' := hgo p hp.symm
  cases hnext with
  | @insert ptr size ips id =>
    have hblock : blocks ptr = some ⟨size, some ips, .recording t⟩ := hown
    simp only [settle, hblock, Option.map_some]
    refine ho.finish hblock (Or.inl rfl) ?_
    intro c hc
    rw [Option.some.injEq] at hc
    rw [← hc]
  | @release ptr =>
    obtain ⟨c, hc, hphase⟩ := hown
    exact ho.finish hc (Or.inr hphase) nofun
  | removeSome _ => exact hgo' nofun nofun (by rename_i ptr after _ _ _; cases after <;> rfl)
  | removeNone _ => exact hgo' nofun nofun (Pc.about_afterRemoving _ _ _)
  | settleSome _ => exact hgo' nofun nofun (by rename_i ptr after _ _ _ _; cases after <;> rfl)
  | settleNone _ => exact hgo' nofun nofun (Pc.about_afterRemoving _ _ _)
  | subObjects => exact hgo' nofun nofun (by rename_i ptr after _ _; cases after <;> rfl)
  | subBytes => exact hgo' nofun nofun (Pc.about_afterRemoving _ _ _)
  | clearShard => exact hgo' nofun nofun (Pc.about_afterShard _)
  | _ => exact hgo' nofun nofun rfl

/-- **Every step of the pool keeps each block in one pair of hands.** -/
theorem owned_step [Fintype Thread] {s s' : Pool Thread} {m : Move Thread}
    (ho : Owned s.blocks s.pc) (h : s.step m = some s') : Owned s'.blocks s'.pc := by
  cases step_spec h with
  | null => exact ho
  | beginSampled hidle hnone =>
    refine ho.take hidle ?_ (Function.update_self _ _ _) rfl (Or.inl rfl)
    intro c₀ hc₀
    rw [hnone] at hc₀
    cases hc₀
  | allocUnsampled hidle hnone =>
    refine ho.setReady ?_ ?_
    · intro c₀ hc₀
      rw [hnone] at hc₀
      cases hc₀
    · intro c hc
      rw [Option.some.injEq] at hc
      rw [← hc]
  | beginDealloc hidle hblock hready =>
    refine ho.take hidle ?_ ⟨_, Function.update_self _ _ _, rfl⟩ rfl (Or.inr rfl)
    intro c₀ hc₀
    rw [hblock, Option.some.injEq] at hc₀
    rwa [← hc₀]
  | @beginRealloc t ptr newPtr newSize stack c hidle hblock hready hfree =>
    have hgone : Owned (Function.update s.blocks ptr none) s.pc := by
      refine ho.setReady ?_ nofun
      intro c₀ hc₀
      rw [hblock, Option.some.injEq] at hc₀
      rwa [← hc₀]
    refine hgone.take hidle ?_ (Function.update_self _ _ _) rfl (Or.inl rfl)
    intro c₀ hc₀
    -- the new address was free, or is the old one and just released
    by_cases hp : newPtr = ptr
    · rw [hp, Function.update_self] at hc₀
      cases hc₀
    · rw [Function.update_of_ne hp, hfree.resolve_left hp] at hc₀
      cases hc₀
  | beginReset hidle =>
    refine ho.goOn trivial ?_
    rw [hidle]
    rfl
  | advance hnext => exact owned_advance ho hnext

/-! ### The live entries -/

variable {s s' : Pool Thread} {m : Move Thread}

/-- The live entries against the blocks: the entry of a sampled block is in when its
allocation has returned, and every other entry is about to be taken out. -/
structure Recorded (s : Pool Thread) : Prop where
  ready : ∀ p c ips, s.blocks p = some c → c.phase = .ready → c.sample = some ips →
    ∃ id, s.heap.lookup ips = some id ∧ s.heap.liveAt p = some (id, c.size)
  live : ∀ p v, s.heap.liveAt p = some v →
    (∃ c, s.blocks p = some c ∧ c.phase = .ready ∧ c.sample ≠ none) ∨
    ∃ t after, s.pc t = .removing .remove p after

/-- A `realloc` takes out the entry of an address at which another allocation has already
been recorded. -/
def steals (s : Pool Thread) : Move Thread → Bool
  | .advance t =>
    match (s.pc t).movesOff with
    | some p =>
      match s.blocks p with
      | some c => decide (c.phase = .ready) && c.sample.isSome
      | none => false
    | none => false
  | _ => false

/-- What a run without resets keeps, whatever it steals. -/
structure Calm (s : Pool Thread) : Prop where
  named : Named s.heap s.pc
  noReset : s.NoReset
  holds : ∀ t, s.HoldsOwn t
  owned : Owned s.blocks s.pc

omit [DecidableEq Thread] in
theorem Calm.init (rate : ℕ) (bytesLeft : Thread → ℤ) (sizes : ℕ → Option ℕ) :
    (init rate bytesLeft sizes).Calm where
  named := Named.new
  noReset := fun _ => rfl
  holds := nofun
  owned := by
    constructor
    · intro t; trivial
    · intro p c t hc hb
      obtain ⟨size, -, rfl⟩ := Option.map_eq_some_iff.mp hc
      exact absurd hb (Cell.not_busyWith_of_ready rfl t)

theorem Calm.step [Fintype Thread] (hc : s.Calm) (hm : m.isReset = false)
    (h : s.step m = some s') : s'.Calm := by
  have hset := settled_step hc.named hc.noReset hm h
  exact ⟨hset.named, hset.noReset, fun t => hset.holds t (hc.holds t), owned_step hc.owned h⟩

omit [DecidableEq Thread] in
theorem Recorded.init (rate : ℕ) (bytesLeft : Thread → ℤ) (sizes : ℕ → Option ℕ) :
    (init rate bytesLeft sizes).Recorded := by
  constructor
  · intro p c ips hc _ hs
    obtain ⟨size, -, rfl⟩ := Option.map_eq_some_iff.mp hc
    cases hs
  · intro p v hv
    cases hv

omit [DecidableEq Thread] in
/-- Entries, blocks and threads that take entries out are where they were; stacks may
have got ids. -/
theorem Recorded.keep (hr : s.Recorded) (hblocks : s'.blocks = s.blocks)
    (hlive : ∀ p, s'.heap.liveAt p = s.heap.liveAt p)
    (hlook : ∀ a id, s.heap.lookup a = some id → s'.heap.lookup a = some id)
    (hpc : ∀ t p after, s.pc t = .removing .remove p after → s'.pc t = s.pc t) :
    s'.Recorded := by
  constructor
  · intro p c ips hc hready hs
    rw [hblocks] at hc
    obtain ⟨id, hl, hv⟩ := hr.ready p c ips hc hready hs
    exact ⟨id, hlook _ _ hl, by rw [hlive, hv]⟩
  · intro p v hv
    rw [hlive] at hv
    rcases hr.live p v hv with ⟨c, hc, hrest⟩ | ⟨t, after, ht⟩
    · exact Or.inl ⟨c, by rw [hblocks, hc], hrest⟩
    · exact Or.inr ⟨t, after, by rw [hpc t p after ht, ht]⟩

/-- A thread that is idle was not taking out an entry. -/
theorem pc_update_of_removing {pc : Thread → Pc} {t : Thread} {pc' : Pc} {at_ : Pc}
    (ht : pc t = at_) (hat : ∀ p after, at_ ≠ .removing .remove p after) (u : Thread) (p : ℕ)
    (after : After) (hu : pc u = .removing .remove p after) :
    Function.update pc t pc' u = pc u := by
  refine Function.update_of_ne ?_ _ _
  rintro rfl
  rw [hu] at ht
  exact hat p after ht.symm

omit [DecidableEq Thread] in
/-- An address that was not allocated becomes a block that no caller has yet, or one
without a sample. -/
theorem Recorded.newBlock (hr : s.Recorded) {p : ℕ} {c : Cell Thread} (hp : s.blocks p = none)
    (hc : c.phase = .ready → c.sample = none) (hheap : s'.heap = s.heap)
    (hblocks : s'.blocks = Function.update s.blocks p (some c))
    (hsame : ∀ u q after, s.pc u = .removing .remove q after → s'.pc u = s.pc u) :
    s'.Recorded := by
  constructor
  · intro q c₁ ips hq hready hs
    rw [hblocks] at hq
    by_cases hqp : q = p
    · -- the new block: no caller's yet, or not sampled
      rw [hqp, Function.update_self, Option.some.injEq] at hq
      rw [← hq] at hready hs
      rw [hc hready] at hs
      cases hs
    · rw [Function.update_of_ne hqp] at hq
      rw [hheap]
      exact hr.ready q c₁ ips hq hready hs
  · intro q v hv
    rw [hheap] at hv
    rcases hr.live q v hv with ⟨c₁, hq, hrest⟩ | ⟨u, after, hu⟩
    · -- the address was not allocated, so this is another block
      have hqp : q ≠ p := by
        rintro rfl
        rw [hp] at hq
        cases hq
      exact Or.inl ⟨c₁, by rw [hblocks, Function.update_of_ne hqp, hq], hrest⟩
    · exact Or.inr ⟨u, after, by rw [hsame u q after hu, hu]⟩

/-- A free begins: from now on the entry is about to be taken out. -/
theorem Recorded.beginDealloc (hr : s.Recorded) {t : Thread} {p : ℕ} {c : Cell Thread}
    (ht : s.pc t = .idle) : (s.beginDealloc t p c).Recorded := by
  constructor
  · intro q c₁ ips hq hready hs
    have hqp : q ≠ p := by
      rintro rfl
      simp only [Pool.beginDealloc, Function.update_self, Option.some.injEq] at hq
      rw [← hq] at hready
      cases hready
    simp only [Pool.beginDealloc, Function.update_of_ne hqp] at hq
    exact hr.ready q c₁ ips hq hready hs
  · intro q v hv
    by_cases hqp : q = p
    · -- whatever is there, this thread is about to take it out
      rw [hqp]
      exact Or.inr ⟨t, .release, Function.update_self _ _ _⟩
    · rcases hr.live q v hv with ⟨c₁, hq, hrest⟩ | ⟨u, after, hu⟩
      · exact Or.inl ⟨c₁, by simp only [Pool.beginDealloc, Function.update_of_ne hqp, hq], hrest⟩
      · refine Or.inr ⟨u, after, ?_⟩
        show Function.update s.pc t _ u = _
        rw [pc_update_of_removing ht nofun u q after hu, hu]

/-- A move begins: the old address is free, and its entry about to be taken out. -/
theorem Recorded.beginRealloc (hr : s.Recorded) {t : Thread} {p n size : ℕ} {stack : List ℕ}
    (ht : s.pc t = .idle) (hfree : n = p ∨ s.blocks n = none) :
    (s.beginRealloc t p n size stack).Recorded := by
  have hblock : ∀ q c₁, (s.beginRealloc t p n size stack).blocks q = some c₁ →
      c₁.phase = .ready → q ≠ p ∧ s.blocks q = some c₁ := by
    intro q c₁ hq hready
    by_cases hqn : q = n
    · simp only [Pool.beginRealloc, hqn, Function.update_self, Option.some.injEq] at hq
      rw [← hq] at hready
      cases hready
    · simp only [Pool.beginRealloc, Function.update_of_ne hqn] at hq
      by_cases hqp : q = p
      · rw [hqp, Function.update_self] at hq
        cases hq
      · rw [Function.update_of_ne hqp] at hq
        exact ⟨hqp, hq⟩
  constructor
  · intro q c₁ ips hq hready hs
    exact hr.ready q c₁ ips (hblock q c₁ hq hready).2 hready hs
  · intro q v hv
    by_cases hqp : q = p
    · rw [hqp]
      exact Or.inr ⟨t, _, Function.update_self _ _ _⟩
    · rcases hr.live q v hv with ⟨c₁, hq, hrest⟩ | ⟨u, after, hu⟩
      · have hqn : q ≠ n := by
          rintro rfl
          rw [hfree.resolve_left hqp] at hq
          cases hq
        refine Or.inl ⟨c₁, ?_, hrest⟩
        simp only [Pool.beginRealloc, Function.update_of_ne hqn, Function.update_of_ne hqp, hq]
      · refine Or.inr ⟨u, after, ?_⟩
        show Function.update s.pc t _ u = _
        rw [pc_update_of_removing ht nofun u q after hu, hu]

/-- The sample of a block is recorded, and the block is the caller's. -/
theorem Recorded.insert (hr : s.Recorded) {t : Thread} {p size id : ℕ} {ips : List ℕ}
    (ht : s.pc t = .sampling (.insert id) p size ips)
    (hl : s.heap.lookup ips = some id) :
    Recorded { s with
      heap := s.heap.insertLive p id size
      pc := Function.update s.pc t .idle
      blocks := Function.update s.blocks p (some ⟨size, some ips, .ready⟩) } := by
  constructor
  · intro q c ips' hq hready hs
    simp only [HeapState.liveAt_insertLive]
    by_cases hqp : q = p
    · simp only [hqp, Function.update_self, Option.some.injEq] at hq
      subst hq
      rw [Option.some.injEq] at hs
      exact ⟨id, hs ▸ hl, if_pos hqp.symm⟩
    · simp only [Function.update_of_ne hqp] at hq
      rw [if_neg (Ne.symm hqp)]
      exact hr.ready q c ips' hq hready hs
  · intro q v hv
    by_cases hqp : q = p
    · rw [hqp]
      exact Or.inl ⟨_, Function.update_self _ _ _, rfl, Option.some_ne_none _⟩
    · rw [HeapState.liveAt_insertLive, if_neg (Ne.symm hqp)] at hv
      rcases hr.live q v hv with ⟨c, hq, hrest⟩ | ⟨u, after, hu⟩
      · exact Or.inl ⟨c, by simp only [Function.update_of_ne hqp, hq], hrest⟩
      · refine Or.inr ⟨u, after, ?_⟩
        show Function.update s.pc t _ u = _
        rw [pc_update_of_removing ht nofun u q after hu, hu]

/-- An entry is taken out that is of no caller's block. -/
theorem Recorded.remove (hr : s.Recorded) {t : Thread} {p : ℕ} {after : After} {pc' : Pc}
    (ht : s.pc t = .removing .remove p after)
    (hno : ∀ c, s.blocks p = some c → c.phase = .ready → c.sample = none) :
    Recorded { s with heap := s.heap.eraseLive p, pc := Function.update s.pc t pc' } := by
  constructor
  · intro q c ips hq hready hs
    by_cases hqp : q = p
    · rw [hqp] at hq
      rw [hno c hq hready] at hs
      cases hs
    · simp only [HeapState.liveAt_eraseLive, if_neg (Ne.symm hqp)]
      exact hr.ready q c ips hq hready hs
  · intro q v hv
    rw [HeapState.liveAt_eraseLive] at hv
    split at hv
    · cases hv
    · next hpq =>
      rcases hr.live q v hv with hblock | ⟨u, after', hu⟩
      · exact Or.inl hblock
      · -- the thread that is about to take this one out is another
        refine Or.inr ⟨u, after', ?_⟩
        show Function.update s.pc t _ u = _
        rw [Function.update_of_ne ?_, hu]
        rintro rfl
        rw [hu] at ht
        cases ht
        exact hpq rfl

/-- A freed address is released. -/
theorem Recorded.release (hr : s.Recorded) {t : Thread} {p : ℕ} {c : Cell Thread}
    (ht : s.pc t = .releasing p) (hblock : s.blocks p = some c) (hphase : c.phase = .freeing t) :
    Recorded { s with
      pc := Function.update s.pc t .idle
      blocks := Function.update s.blocks p none } := by
  constructor
  · intro q c₁ ips hq hready hs
    by_cases hqp : q = p
    · simp only [hqp, Function.update_self] at hq
      cases hq
    · simp only [Function.update_of_ne hqp] at hq
      exact hr.ready q c₁ ips hq hready hs
  · intro q v hv
    rcases hr.live q v hv with ⟨c₁, hq, hready, hs⟩ | ⟨u, after, hu⟩
    · have hqp : q ≠ p := by
        rintro rfl
        rw [hblock, Option.some.injEq] at hq
        rw [← hq, hphase] at hready
        cases hready
      exact Or.inl ⟨c₁, by simp only [Function.update_of_ne hqp, hq], hready, hs⟩
    · refine Or.inr ⟨u, after, ?_⟩
      show Function.update s.pc t _ u = _
      rw [pc_update_of_removing ht nofun u q after hu, hu]

/-- The address a thread takes an entry out of is no caller's sampled block, unless the
thread is about to steal. -/
theorem Calm.not_sampled_of_removing (hc : s.Calm) {t : Thread} {p : ℕ} {after : After}
    (ht : s.pc t = .removing .remove p after) (hm : s.steals (.advance t) = false) (c : Cell Thread)
    (hb : s.blocks p = some c) (hready : c.phase = .ready) : c.sample = none := by
  have hown := hc.owned.owns t
  rw [ht] at hown
  cases after with
  | release =>
    -- a block that is being freed is not its caller's
    obtain ⟨c', hc', hphase⟩ := hown
    rw [hb, Option.some.injEq] at hc'
    rw [← hc', hready] at hphase
    cases hphase
  | sample n size ips =>
    simp only [steals, ht, Pc.movesOff, hb, hready] at hm
    simpa using hm

/-- A step inside the profiler that neither changes an entry nor ends an operation. -/
theorem Recorded.goOn (hc : s.Calm) (hr : s.Recorded) {t : Thread} {h' : HeapState} {pc' : Pc}
    {mapFree callsitesFree : Bool} (hnext : (s.pc t).Next s.heap mapFree callsitesFree h' pc')
    (hlive : ∀ p, h'.liveAt p = s.heap.liveAt p)
    (hat : ∀ p after, s.pc t ≠ .removing .remove p after)
    (hsettle : settle (s.pc t) s.blocks = s.blocks) :
    Recorded { s with
      heap := h'
      pc := Function.update s.pc t pc'
      blocks := settle (s.pc t) s.blocks } := by
  refine hr.keep hsettle hlive ?_ ?_
  · exact fun a id hl => hnext.lookup (hc.noReset t) (hc.named.fits t) hl
  · intro u p after hu
    exact pc_update_of_removing rfl hat u p after hu

/-- **Going on inside the profiler keeps the entries**, unless it steals one. -/
theorem recorded_advance (hc : s.Calm) (hr : s.Recorded) {t : Thread} {h' : HeapState} {pc' : Pc}
    {mapFree callsitesFree : Bool} (hm : s.steals (.advance t) = false)
    (hnext : (s.pc t).Next s.heap mapFree callsitesFree h' pc') :
    Recorded { s with
      heap := h'
      pc := Function.update s.pc t pc'
      blocks := settle (s.pc t) s.blocks } := by
  have hgo := hr.goOn hc hnext
  have hown := hc.owned.owns t
  have hres := hc.noReset t
  generalize hp : s.pc t = p at hnext hgo hown hres
  cases hnext with
  | @insert ptr size ips id =>
    have hblock : s.blocks ptr = some ⟨size, some ips, .recording t⟩ := hown
    have hl : s.heap.lookup ips = some id := hc.holds t id ips (by rw [hp]; rfl)
    simp only [settle, hblock, Option.map_some]
    exact hr.insert hp hl
  | @removeSome ptr after id allocSize hv =>
    exact hr.remove hp (hc.not_sampled_of_removing hp hm)
  | @removeNone ptr after hv =>
    -- nothing comes out: as if the missing entry had been taken out
    have herase : s.heap.eraseLive ptr = s.heap := HeapState.eraseLive_of_none hv
    have hout : Recorded { s with
        heap := s.heap.eraseLive ptr
        pc := Function.update s.pc t (Pc.afterRemoving ptr after) } :=
      hr.remove hp (hc.not_sampled_of_removing hp hm)
    rwa [herase] at hout
  | @release ptr =>
    obtain ⟨c, hblock, hphase⟩ := hown
    exact hr.release hp hblock hphase
  | clearShard => cases hres
  | clearMap _ => cases hres
  | clearCallsites _ => cases hres
  | storeNextId => cases hres
  | _ => exact hgo (fun _ => rfl) (by intro q after hq; cases hq) rfl

/-- **One step of the pool keeps the entries**, unless it begins a reset or steals. -/
theorem recorded_step [Fintype Thread] (hc : s.Calm) (hr : s.Recorded)
    (hm : m.isReset = false ∧ s.steals m = false) (h : s.step m = some s') : s'.Recorded := by
  cases step_spec h with
  | null => exact hr
  | beginSampled hidle hnone =>
    exact hr.newBlock hnone (fun hready => by cases hready) rfl rfl
      (pc_update_of_removing hidle nofun)
  | allocUnsampled _ hnone => exact hr.newBlock hnone (fun _ => rfl) rfl rfl fun _ _ _ _ => rfl
  | beginDealloc hidle _ _ => exact hr.beginDealloc hidle
  | beginRealloc hidle _ _ hfree => exact hr.beginRealloc hidle hfree
  | beginReset _ => cases hm.1
  | advance hnext => exact recorded_advance hc hr hm.2 hnext

/-- The live entries are those of the sampled blocks: each with the callsite and the size
of its own allocation, and no entry at an address that is not allocated. -/
structure Faithful (s : Pool Thread) : Prop where
  sampled : ∀ p c ips, s.blocks p = some c → c.sample = some ips →
    ∃ id, s.heap.lookup ips = some id ∧ s.heap.Live p (id, c.size)
  allocated : ∀ p v, s.heap.Live p v → s.blocks p ≠ none

/-- **The live entries are faithful whenever no operation is under way**, in every run of
allocations, frees and moves in which no move takes out another allocation's entry. -/
theorem faithful_of_reach [Fintype Thread] (rate : ℕ) (bytesLeft : Thread → ℤ)
    (sizes : ℕ → Option ℕ)
    (h : Machine.Reach step (fun s m => m.isReset = false ∧ s.steals m = false)
      (init rate bytesLeft sizes) s)
    (hidle : ∀ t, s.pc t = .idle) : s.Faithful := by
  obtain ⟨hc, hr⟩ : s.Calm ∧ s.Recorded := by
    refine h.invariant (I := fun s => s.Calm ∧ s.Recorded) ⟨Calm.init _ _ _, Recorded.init _ _ _⟩ ?_
    exact fun _ _ _ hi hm hst => ⟨hi.1.step hm.1 hst, recorded_step hi.1 hi.2 hm hst⟩
  -- with every thread idle, every block is its caller's
  have hready : ∀ p c, s.blocks p = some c → c.phase = .ready := by
    intro p c hb
    cases hphase : c.phase with
    | ready => rfl
    | recording t => exact absurd (Or.inl hphase) (hc.owned.not_busy_of_idle (hidle t) hb)
    | freeing t => exact absurd (Or.inr hphase) (hc.owned.not_busy_of_idle (hidle t) hb)
  constructor
  · intro p c ips hb hs
    obtain ⟨id, hl, hv⟩ := hr.ready p c ips hb (hready p c hb) hs
    exact ⟨id, hl, (s.heap.live_iff p _).mpr hv⟩
  · intro p v hv
    rcases hr.live p v ((s.heap.live_iff p v).mp hv) with ⟨c, hb, -⟩ | ⟨t, after, ht⟩
    · rw [hb]
      exact Option.some_ne_none c
    · rw [hidle t] at ht
      cases ht

/-- One thread moves its block, and the other is handed the old address only after the
old entry is out. -/
def handOver : List (Move Bool) :=
  .alloc true 4096 1024 [7, 8] :: advances true 11 ++ .realloc true 4096 8192 2048 [9, 8] ::
    advances true 15 ++ .alloc false 4096 512 [6, 8] :: advances false 11

theorem faithful_of_reach_handOver :
    ∃ s : Pool Bool, Machine.run step (init 512 (fun _ => 0) (fun _ => none)) handOver = some s ∧
      s.Faithful := by
  have hall : Machine.Throughout step (fun s m => m.isReset = false ∧ s.steals m = false)
      (init 512 (fun _ => 0) (fun _ => none)) handOver := by decide +kernel
  have hend : (Machine.run step (init 512 (fun _ => 0) (fun _ => none)) handOver).map
      (fun s : Pool Bool => (s.pc true, s.pc false)) = some (.idle, .idle) := by decide +kernel
  obtain ⟨s, hs, hobs⟩ := Option.map_eq_some_iff.mp hend
  rw [Prod.mk.injEq] at hobs
  have hidle : ∀ t, s.pc t = .idle := by
    intro t
    cases t with
    | true => exact hobs.1
    | false => exact hobs.2
  exact ⟨s, hs, faithful_of_reach 512 (fun _ => 0) (fun _ => none)
    (Machine.Reach.of_throughout hall hs) hidle⟩

/-- The other thread is handed the old address, and records its sample there, before the
old entry is out. -/
def handOverEarly : List (Move Bool) :=
  .alloc true 4096 1024 [7, 8] :: advances true 11 ++ .realloc true 4096 8192 2048 [9, 8] ::
    .alloc false 4096 512 [6, 8] :: advances false 11 ++ advances true 15

/-- The move takes out the other thread's entry: its block is allocated and sampled, and
has no live entry. -/
theorem handOverEarly_unfaithful :
    ∃ s : Pool Bool, Machine.run step (init 512 (fun _ => 0) (fun _ => none)) handOverEarly =
      some s ∧ (∀ t, s.pc t = .idle) ∧ ¬s.Faithful := by
  have hrun : (Machine.run step (init 512 (fun _ => 0) (fun _ => none)) handOverEarly).map
      (fun s : Pool Bool => ((s.pc true, s.pc false), s.blocks 4096, s.heap.liveAt 4096)) =
        some ((.idle, .idle), some ⟨512, some [6, 8], .ready⟩, none) := by decide +kernel
  obtain ⟨s, hs, hobs⟩ := Option.map_eq_some_iff.mp hrun
  simp only [Prod.mk.injEq] at hobs
  obtain ⟨⟨htrue, hfalse⟩, hblock, hlive⟩ := hobs
  refine ⟨s, hs, ?_, fun hf => ?_⟩
  · intro t
    cases t with
    | true => exact htrue
    | false => exact hfalse
  · obtain ⟨id, -, hv⟩ := hf.sampled 4096 _ _ hblock rfl
    rw [HeapState.live_iff, hlive] at hv
    cases hv

end Pool

end Rpprof
