import Rpprof.Heap.State

/-!
# Recording samples and frees

The three operations on the tables, as one thread performs them from beginning
to end: `record_sample`, `record_dealloc` and `reset`.

## Main definitions

* `HeapState.recordSample`, `HeapState.recordDealloc`, `HeapState.reset`.
* `HeapState.Sound` — the tables agree and every live entry has a callsite.
* `HeapState.Exact` — the in-use counters are what the live entries add up to.
* `HeapState.Counts` — the allocation counters are what a list of samples adds up to.

## Main results

* `HeapState.capture_eq_take` — a sample keeps the innermost `MAX_DEPTH` frames.
* `HeapState.liveAt_recordSample`, `HeapState.callsites_recordSample`, … — the
  tables after each operation, entry by entry.
* `HeapState.exact_recordSample_iff` — a sample keeps the in-use counters exact
  exactly when its address has no live entry.
-/

namespace Rpprof

namespace HeapState

/-! ### The operations -/

/-- The loop that fills `ips`: the callback pushes a frame and asks for the next
one while there are fewer than `MAX_DEPTH`. -/
def captureFrom (ips : List ℕ) : List ℕ → List ℕ
  | [] => ips
  | ip :: frames =>
    if (ips ++ [ip]).length < maxDepth then captureFrom (ips ++ [ip]) frames else ips ++ [ip]

/-- The instruction pointers a sample records of a call stack. -/
def capture (stack : List ℕ) : List ℕ := captureFrom [] stack

/-- The write-locked `entry(ips).or_insert_with(..)`: the id of the stack, created
if no other thread did so meanwhile. -/
def createCallsite (h : HeapState) (ips : List ℕ) : ℕ × HeapState :=
  match h.lookup ips with
  | some id => (id, h)
  | none => (h.drawId.1, (h.drawId.2.insertCallsite h.drawId.1 ips).bindStack ips h.drawId.1)

/-- The id of a stack: looked up under the read lock, else created. -/
def callsiteId (h : HeapState) (ips : List ℕ) : ℕ × HeapState :=
  match h.lookup ips with
  | some id => (id, h)
  | none => h.createCallsite ips

/-- `record_sample`. -/
def recordSample (h : HeapState) (ptr size : ℕ) (stack : List ℕ) : HeapState :=
  let (id, h) := h.callsiteId (capture stack)
  (h.updateCallsite id (CallsiteData.sampled size)).insertLive ptr id size

/-- `record_dealloc`; the size it is passed is ignored. -/
def recordDealloc (h : HeapState) (ptr _size : ℕ) : HeapState :=
  match h.removeLive ptr with
  | (some (id, allocSize), h) => h.updateCallsite id (CallsiteData.freed allocSize)
  | (none, h) => h

/-- `reset`: every shard, the stack map, the callsite data, the counter. -/
def reset (h : HeapState) : HeapState :=
  (((List.finRange numShards).foldl clearShard h).clearMap).clearCallsites.storeNextId

/-! ### What a sample records of a stack -/

theorem captureFrom_eq (stack : List ℕ) : ∀ ips : List ℕ, ips.length < maxDepth →
    captureFrom ips stack = ips ++ stack.take (maxDepth - ips.length) := by
  induction stack with
  | nil => intro ips _; simp [captureFrom]
  | cons ip frames ih =>
    intro ips hips
    have hlen : (ips ++ [ip]).length = ips.length + 1 := by simp
    obtain ⟨m, hm⟩ : ∃ m, maxDepth - ips.length = m + 1 := ⟨maxDepth - ips.length - 1, by omega⟩
    rw [captureFrom, hm, List.take_succ_cons]
    split
    · next hlt =>
      rw [ih _ hlt, List.append_assoc, List.singleton_append, hlen]
      congr 3
      omega
    · next hge =>
      -- the callback asked for no further frame
      have : m = 0 := by omega
      rw [this, List.take_zero]

/-- The innermost `MAX_DEPTH` frames are kept, no more and no fewer. -/
theorem capture_eq_take (stack : List ℕ) : capture stack = stack.take maxDepth := by
  rw [capture, captureFrom_eq stack [] (by decide), List.nil_append]
  rfl

/-! ### The id of a stack -/

section CallsiteId

variable {h : HeapState} {ips : List ℕ}

theorem callsiteId_of_some {id : ℕ} (hl : h.lookup ips = some id) :
    h.callsiteId ips = (id, h) := by
  simp only [callsiteId, hl]

theorem callsiteId_of_none (hl : h.lookup ips = none) :
    h.callsiteId ips = (h.nextCallsiteId,
      (h.drawId.2.insertCallsite h.nextCallsiteId ips).bindStack ips h.nextCallsiteId) := by
  simp only [callsiteId, createCallsite, hl]
  rfl

@[simp] theorem shards_callsiteId (h : HeapState) (ips : List ℕ) :
    (h.callsiteId ips).2.shards = h.shards := by
  cases hl : h.lookup ips with
  | some id => rw [callsiteId_of_some hl]
  | none => rw [callsiteId_of_none hl]; rfl

theorem lookup_callsiteId (h : HeapState) (ips a : List ℕ) :
    (h.callsiteId ips).2.lookup a = if ips = a then some (h.callsiteId ips).1 else h.lookup a := by
  cases hl : h.lookup ips with
  | some id =>
    rw [callsiteId_of_some hl]
    split
    · next ha => rw [← ha, hl]
    · rfl
  | none =>
    rw [callsiteId_of_none hl]
    show (h.callsiteMap.insert ips h.nextCallsiteId).get? a = _
    rw [Table.get?_insert]
    simp only [beq_iff_eq, lookup]

theorem callsites_callsiteId (ha : h.Agree) (ips : List ℕ) (a : ℕ) :
    (h.callsiteId ips).2.callsites.get? a =
      if (h.callsiteId ips).1 = a then some ((h.callsites.get? a).getD (CallsiteData.fresh ips))
      else h.callsites.get? a := by
  cases hl : h.lookup ips with
  | some id =>
    obtain ⟨d, hd, -⟩ := ha.data ips id hl
    rw [callsiteId_of_some hl]
    split
    · next hid => rw [← hid, hd, Option.getD_some]
    · rfl
  | none =>
    rw [callsiteId_of_none hl]
    show (h.callsites.insert h.nextCallsiteId (CallsiteData.fresh ips)).get? a = _
    rw [Table.get?_insert]
    simp only [beq_iff_eq]
    split
    · next hid => rw [← hid, ha.next_free, Option.getD_none]
    · rfl

/-- The data of the id carry the stack. -/
theorem ips_callsiteId (ha : h.Agree) (ips : List ℕ) :
    ((h.callsites.get? (h.callsiteId ips).1).getD (CallsiteData.fresh ips)).ips = ips := by
  cases hl : h.lookup ips with
  | some id =>
    obtain ⟨d, hd, hips⟩ := ha.data ips id hl
    rw [callsiteId_of_some hl, hd, Option.getD_some, hips]
  | none =>
    rw [callsiteId_of_none hl, ha.next_free, Option.getD_none]
    rfl

/-- A new stack has a new id: data under another stack's id are not its own. -/
theorem callsiteId_eq_iff (ha : h.Agree) {a : ℕ} {d : CallsiteData}
    (hd : h.callsites.get? a = some d) : (h.callsiteId ips).1 = a ↔ d.ips = ips := by
  cases hl : h.lookup ips with
  | some id =>
    rw [callsiteId_of_some hl]
    obtain ⟨d', hd', hips⟩ := ha.data ips id hl
    constructor
    · rintro rfl
      rw [hd, Option.some.injEq] at hd'
      rw [hd', hips]
    · rintro rfl
      have := ha.bound a d hd
      rw [hl, Option.some.injEq] at this
      exact this
  | none =>
    rw [callsiteId_of_none hl]
    constructor
    · rintro rfl
      rw [ha.next_free] at hd
      cases hd
    · rintro rfl
      rw [ha.bound a d hd] at hl
      cases hl

theorem Agree.callsiteId (ha : h.Agree) (ips : List ℕ) : (h.callsiteId ips).2.Agree := by
  constructor
  · intro a id hid
    rw [lookup_callsiteId] at hid
    rw [callsites_callsiteId ha]
    split at hid
    · next heq =>
      -- the stack itself
      rw [Option.some.injEq] at hid
      rw [if_pos hid, ← heq, ← hid]
      exact ⟨_, rfl, ips_callsiteId ha ips⟩
    · next hne =>
      -- another stack: its id is another, so its data are as before
      obtain ⟨d, hd, hips⟩ := ha.data a id hid
      have hnid : (h.callsiteId ips).1 ≠ id := by
        rw [Ne, callsiteId_eq_iff ha hd, hips]
        exact fun e => hne e.symm
      exact ⟨d, by rw [if_neg hnid, hd], hips⟩
  · intro id d hd
    rw [callsites_callsiteId ha] at hd
    rw [lookup_callsiteId]
    split at hd
    · next heq =>
      rw [Option.some.injEq] at hd
      rw [← hd, ← heq, ips_callsiteId ha ips, if_pos rfl]
    · next hne =>
      have hips : d.ips ≠ ips := fun e => hne ((callsiteId_eq_iff ha hd).mpr e)
      rw [if_neg (Ne.symm hips)]
      exact ha.bound id d hd
  · intro id d hd
    cases hl : h.lookup ips with
    | some id' =>
      rw [callsiteId_of_some hl] at hd ⊢
      exact ha.below id d hd
    | none =>
      rw [callsites_callsiteId ha] at hd
      rw [callsiteId_of_none hl] at hd ⊢
      show id < h.nextCallsiteId + 1
      split at hd
      · next heq => rw [← heq]; exact Nat.lt_succ_self _
      · exact Nat.lt_succ_of_lt (ha.below id d hd)

end CallsiteId

theorem Agree.updateCallsite {h : HeapState} (ha : h.Agree) (id : ℕ)
    {f : CallsiteData → CallsiteData} (hf : ∀ d, (f d).ips = d.ips) :
    (h.updateCallsite id f).Agree := by
  have hmap : ∀ a d, (h.updateCallsite id f).callsites.get? a = some d →
      ∃ d₀, h.callsites.get? a = some d₀ ∧ d.ips = d₀.ips := by
    intro a d hd
    rw [callsites_updateCallsite] at hd
    split at hd
    · obtain ⟨d₀, hd₀, rfl⟩ := Option.map_eq_some_iff.mp hd
      exact ⟨d₀, hd₀, hf d₀⟩
    · exact ⟨d, hd, rfl⟩
  constructor
  · intro ips a hl
    obtain ⟨d, hd, hips⟩ := ha.data ips a hl
    rw [callsites_updateCallsite, hd]
    split
    · exact ⟨f d, rfl, (hf d).trans hips⟩
    · exact ⟨d, rfl, hips⟩
  · intro a d hd
    obtain ⟨d₀, hd₀, hips⟩ := hmap a d hd
    rw [hips]
    exact ha.bound a d₀ hd₀
  · intro a d hd
    obtain ⟨d₀, hd₀, -⟩ := hmap a d hd
    exact ha.below a d₀ hd₀

/-! ### The tables after a sample -/

section RecordSample

variable {h : HeapState} {ptr size : ℕ} {stack : List ℕ}

/-- A sample in three steps: the id, the counters, the live entry. -/
theorem recordSample_eq (h : HeapState) (ptr size : ℕ) (stack : List ℕ) :
    h.recordSample ptr size stack =
      ((h.callsiteId (capture stack)).2.updateCallsite (h.callsiteId (capture stack)).1
        (CallsiteData.sampled size)).insertLive ptr (h.callsiteId (capture stack)).1 size :=
  rfl

theorem liveAt_recordSample (h : HeapState) (ptr size : ℕ) (stack : List ℕ) (p : ℕ) :
    (h.recordSample ptr size stack).liveAt p =
      if ptr = p then some ((h.callsiteId (capture stack)).1, size) else h.liveAt p := by
  have hsame : (h.callsiteId (capture stack)).2.liveAt p = h.liveAt p := by
    rw [liveAt, shards_callsiteId, liveAt]
  rw [recordSample_eq, liveAt_insertLive, ← hsame]
  rfl

theorem lookup_recordSample (h : HeapState) (ptr size : ℕ) (stack a : List ℕ) :
    (h.recordSample ptr size stack).lookup a =
      if capture stack = a then some (h.callsiteId (capture stack)).1 else h.lookup a :=
  lookup_callsiteId h (capture stack) a

theorem callsites_recordSample (ha : h.Agree) (ptr size : ℕ) (stack : List ℕ) (a : ℕ) :
    (h.recordSample ptr size stack).callsites.get? a =
      if (h.callsiteId (capture stack)).1 = a then
        some (((h.callsites.get? a).getD (CallsiteData.fresh (capture stack))).sampled size)
      else h.callsites.get? a := by
  show ((h.callsiteId (capture stack)).2.updateCallsite (h.callsiteId (capture stack)).1
    (CallsiteData.sampled size)).callsites.get? a = _
  rw [callsites_updateCallsite, callsites_callsiteId ha]
  by_cases hid : (h.callsiteId (capture stack)).1 = a
  · rw [if_pos hid, if_pos hid, if_pos hid, Option.map_some]
  · rw [if_neg hid, if_neg hid, if_neg hid]

/-- At an address with no live entry, a sample adds its own entry to a sum. -/
theorem liveSum_recordSample_of_none (hp : h.liveAt ptr = none) (size : ℕ) (stack : List ℕ)
    (f : ℕ × ℕ → ℕ) : (h.recordSample ptr size stack).liveSum f =
      h.liveSum f + f ((h.callsiteId (capture stack)).1, size) := by
  have hnone : ((h.callsiteId (capture stack)).2.updateCallsite (h.callsiteId (capture stack)).1
      (CallsiteData.sampled size)).liveAt ptr = none := by
    show (h.callsiteId (capture stack)).2.liveAt ptr = none
    rw [liveAt, shards_callsiteId, ← liveAt, hp]
  have hsum := liveSum_insertLive_of_none hnone (h.callsiteId (capture stack)).1 size f
  have hsame : (h.callsiteId (capture stack)).2.liveSum f = h.liveSum f := by
    rw [liveSum, shards_callsiteId, liveSum]
  rw [← hsame]
  exact hsum

/-- Over an old entry, a sample trades the entries in a sum. -/
theorem liveSum_recordSample_of_some {v : ℕ × ℕ} (hp : h.liveAt ptr = some v) (size : ℕ)
    (stack : List ℕ) (f : ℕ × ℕ → ℕ) : (h.recordSample ptr size stack).liveSum f + f v =
      h.liveSum f + f ((h.callsiteId (capture stack)).1, size) := by
  have hsome : ((h.callsiteId (capture stack)).2.updateCallsite (h.callsiteId (capture stack)).1
      (CallsiteData.sampled size)).liveAt ptr = some v := by
    show (h.callsiteId (capture stack)).2.liveAt ptr = some v
    rw [liveAt, shards_callsiteId, ← liveAt, hp]
  have hsum := liveSum_insertLive_of_some hsome (h.callsiteId (capture stack)).1 size f
  have hsame : (h.callsiteId (capture stack)).2.liveSum f = h.liveSum f := by
    rw [liveSum, shards_callsiteId, liveSum]
  rw [← hsame]
  exact hsum

theorem Agree.recordSample (ha : h.Agree) (ptr size : ℕ) (stack : List ℕ) :
    (h.recordSample ptr size stack).Agree := by
  have := (ha.callsiteId (capture stack)).updateCallsite (h.callsiteId (capture stack)).1
    (CallsiteData.ips_sampled size)
  exact ⟨this.data, this.bound, this.below⟩

end RecordSample

/-! ### The tables after a free -/

section RecordDealloc

variable {h : HeapState} {ptr : ℕ}

/-- A free of an address with no live entry changes nothing. -/
theorem recordDealloc_of_none (hp : h.liveAt ptr = none) (size : ℕ) :
    h.recordDealloc ptr size = h := by
  rw [recordDealloc, removeLive, hp]
  exact eraseLive_of_none hp

theorem recordDealloc_of_some {id allocSize : ℕ} (hp : h.liveAt ptr = some (id, allocSize))
    (size : ℕ) : h.recordDealloc ptr size =
      (h.eraseLive ptr).updateCallsite id (CallsiteData.freed allocSize) := by
  rw [recordDealloc, removeLive, hp]

theorem liveAt_recordDealloc (h : HeapState) (ptr size p : ℕ) :
    (h.recordDealloc ptr size).liveAt p = if ptr = p then none else h.liveAt p := by
  cases hp : h.liveAt ptr with
  | none =>
    rw [recordDealloc_of_none hp]
    split
    · next heq => rw [← heq, hp]
    · rfl
  | some v =>
    rw [recordDealloc_of_some hp]
    exact liveAt_eraseLive h ptr p

@[simp] theorem lookup_recordDealloc (h : HeapState) (ptr size : ℕ) (a : List ℕ) :
    (h.recordDealloc ptr size).lookup a = h.lookup a := by
  cases hp : h.liveAt ptr with
  | none => rw [recordDealloc_of_none hp]
  | some v => rw [recordDealloc_of_some hp]; rfl

theorem callsites_recordDealloc {id allocSize : ℕ} (hp : h.liveAt ptr = some (id, allocSize))
    (size a : ℕ) : (h.recordDealloc ptr size).callsites.get? a =
      if id = a then (h.callsites.get? a).map (CallsiteData.freed allocSize)
      else h.callsites.get? a := by
  rw [recordDealloc_of_some hp]
  exact callsites_updateCallsite (h.eraseLive ptr) id _ a

theorem Agree.recordDealloc (ha : h.Agree) (ptr size : ℕ) : (h.recordDealloc ptr size).Agree := by
  cases hp : h.liveAt ptr with
  | none => rwa [recordDealloc_of_none hp]
  | some v =>
    have := ha.updateCallsite v.1 (CallsiteData.ips_freed v.2)
    rw [recordDealloc_of_some hp]
    exact ⟨this.data, this.bound, this.below⟩

/-- A free takes the entry of its address off a sum. -/
theorem liveSum_recordDealloc {v : ℕ × ℕ} (hp : h.liveAt ptr = some v) (size : ℕ)
    (f : ℕ × ℕ → ℕ) : (h.recordDealloc ptr size).liveSum f + f v = h.liveSum f := by
  rw [recordDealloc_of_some hp]
  exact liveSum_eraseLive hp f

end RecordDealloc

/-! ### The tables after a reset -/

theorem shards_foldl_clearShard (l : List (Fin numShards)) (h : HeapState) (i : Fin numShards) :
    (l.foldl clearShard h).shards i = if i ∈ l then Table.empty else h.shards i := by
  induction l generalizing h with
  | nil => simp
  | cons j l ih =>
    rw [List.foldl_cons, ih]
    by_cases hl : i ∈ l
    · rw [if_pos hl, if_pos (List.mem_cons_of_mem j hl)]
    · rw [if_neg hl]
      show Function.update h.shards j Table.empty i = _
      by_cases hij : i = j
      · rw [hij, Function.update_self, if_pos List.mem_cons_self]
      · rw [Function.update_of_ne hij, if_neg (by simp [hij, hl])]

/-- **A reset leaves the state the profiler starts with.** -/
theorem reset_eq_new (h : HeapState) : h.reset = new := by
  refine HeapState.ext (funext fun i => ?_) rfl rfl rfl
  show ((List.finRange numShards).foldl clearShard h).shards i = Table.empty
  rw [shards_foldl_clearShard, if_pos (List.mem_finRange i)]

/-! ### Counters against entries and samples -/

/-- The tables agree, and the callsite of every live entry has its data. -/
structure Sound (h : HeapState) : Prop extends h.Agree where
  /-- A live entry's id is in use. -/
  covered : ∀ p v, h.liveAt p = some v → ∃ d, h.callsites.get? v.1 = some d

/-- The in-use counters are what the live entries add up to. -/
def Exact (h : HeapState) : Prop :=
  ∀ id d, h.callsites.get? id = some d →
    d.inuseObjects = h.liveObjects id ∧ d.inuseBytes = h.liveBytes id

/-- A recorded sample: the stack kept of it and its size. -/
structure Sample where
  ips : List ℕ
  size : ℕ
deriving DecidableEq, Repr

/-- The number of samples of a stack. -/
def sampleObjects (ips : List ℕ) (samples : List Sample) : ℕ := samples.countP (·.ips = ips)

/-- The total size of the samples of a stack. -/
def sampleBytes (ips : List ℕ) (samples : List Sample) : ℕ :=
  ((samples.filter (·.ips = ips)).map Sample.size).sum

/-- The allocation counters are what the samples add up to, and every sampled stack
has an id. -/
structure Counts (h : HeapState) (samples : List Sample) : Prop where
  /-- Each callsite counts the samples of its stack. -/
  exact : ∀ id d, h.callsites.get? id = some d →
    d.allocObjects = sampleObjects d.ips samples ∧ d.allocBytes = sampleBytes d.ips samples
  /-- No sample is left out. -/
  named : ∀ s ∈ samples, h.lookup s.ips ≠ none

section Counters

variable {h : HeapState}

theorem Sound.new : HeapState.new.Sound :=
  { Agree.new with covered := by intro p v hp; cases hp }

theorem Exact.new : HeapState.new.Exact := by
  intro id d hd
  cases hd

theorem Counts.new : HeapState.new.Counts [] := by
  constructor
  · intro id d hd; cases hd
  · intro s hs; cases hs

/-- The callsite of a sample has data afterwards, and no callsite loses its own. -/
theorem exists_callsites_recordSample (ha : h.Agree) (ptr size : ℕ) (stack : List ℕ) {a : ℕ}
    (hex : (h.callsiteId (capture stack)).1 = a ∨ ∃ d, h.callsites.get? a = some d) :
    ∃ d, (h.recordSample ptr size stack).callsites.get? a = some d := by
  rw [callsites_recordSample ha]
  by_cases hid : (h.callsiteId (capture stack)).1 = a
  · rw [if_pos hid]
    exact ⟨_, rfl⟩
  · rw [if_neg hid]
    exact hex.resolve_left hid

theorem Sound.recordSample (hs : h.Sound) (ptr size : ℕ) (stack : List ℕ) :
    (h.recordSample ptr size stack).Sound where
  toAgree := hs.toAgree.recordSample ptr size stack
  covered := by
    intro p v hp
    rw [liveAt_recordSample] at hp
    apply exists_callsites_recordSample hs.toAgree
    split at hp
    · rw [Option.some.injEq] at hp
      exact Or.inl (by rw [← hp])
    · exact Or.inr (hs.covered p v hp)

theorem Sound.recordDealloc (hs : h.Sound) (ptr size : ℕ) : (h.recordDealloc ptr size).Sound where
  toAgree := hs.toAgree.recordDealloc ptr size
  covered := by
    intro p v hp
    rw [liveAt_recordDealloc] at hp
    split at hp
    · cases hp
    obtain ⟨d, hd⟩ := hs.covered p v hp
    cases hptr : h.liveAt ptr with
    | none => exact ⟨d, by rw [recordDealloc_of_none hptr, hd]⟩
    | some w =>
      rw [callsites_recordDealloc hptr, hd]
      split <;> exact ⟨_, rfl⟩

/-- Counters that do not exist yet count as zero, and are exact: no live entry has
an id that was never drawn. -/
theorem Exact.getD (hs : h.Sound) (he : h.Exact) (ips : List ℕ) (id : ℕ) :
    ((h.callsites.get? id).getD (CallsiteData.fresh ips)).inuseObjects = h.liveObjects id ∧
      ((h.callsites.get? id).getD (CallsiteData.fresh ips)).inuseBytes = h.liveBytes id := by
  cases hd : h.callsites.get? id with
  | some d => exact he id d hd
  | none =>
    have hno : ∀ p v, h.liveAt p = some v → v.1 ≠ id := by
      intro p v hp hv
      obtain ⟨d, hd'⟩ := hs.covered p v hp
      rw [hv, hd] at hd'
      cases hd'
    have hobj : h.liveObjects id = 0 :=
      liveSum_eq_zero fun p v hp => if_neg (hno p v hp)
    have hbyt : h.liveBytes id = 0 :=
      liveSum_eq_zero fun p v hp => if_neg (hno p v hp)
    rw [hobj, hbyt]
    exact ⟨rfl, rfl⟩

/-- A sample at a free address keeps the in-use counters exact. -/
theorem Exact.recordSample (hs : h.Sound) (he : h.Exact) {ptr : ℕ} (hp : h.liveAt ptr = none)
    (size : ℕ) (stack : List ℕ) : (h.recordSample ptr size stack).Exact := by
  intro a d hd
  have hobj := liveSum_recordSample_of_none hp size stack (objectsOf a)
  have hbyt := liveSum_recordSample_of_none hp size stack (bytesOf a)
  rw [callsites_recordSample hs.toAgree] at hd
  rw [liveObjects, liveBytes, hobj, hbyt, ← liveObjects, ← liveBytes]
  by_cases hid : (h.callsiteId (capture stack)).1 = a
  · rw [if_pos hid, Option.some.injEq] at hd
    have hold := Exact.getD hs he (capture stack) a
    rw [← hd, CallsiteData.inuseObjects_sampled, CallsiteData.inuseBytes_sampled, hold.1, hold.2,
      objectsOf, bytesOf, if_pos hid, if_pos hid]
    exact ⟨by push_cast; rfl, by push_cast; rfl⟩
  · rw [if_neg hid] at hd
    rw [objectsOf, bytesOf, if_neg hid, if_neg hid, Nat.add_zero, Nat.add_zero]
    exact he a d hd

/-- A sample over an old entry breaks the counter of the old entry's callsite: the
entry is gone and nothing was subtracted for it. -/
theorem not_exact_recordSample (hs : h.Sound) (he : h.Exact) {ptr : ℕ} {v : ℕ × ℕ}
    (hp : h.liveAt ptr = some v) (size : ℕ) (stack : List ℕ) :
    ¬(h.recordSample ptr size stack).Exact := by
  intro hex
  obtain ⟨d, hd⟩ := hs.covered ptr v hp
  have hobj := liveSum_recordSample_of_some hp size stack (objectsOf v.1)
  have hold := (he v.1 d hd).1
  have hnew := hex v.1
  rw [callsites_recordSample hs.toAgree, hd, Option.getD_some] at hnew
  rw [← liveObjects, ← liveObjects, objectsOf, objectsOf, if_pos rfl] at hobj
  by_cases hid : (h.callsiteId (capture stack)).1 = v.1
  · -- the same callsite: counted twice, held once
    rw [if_pos hid] at hnew hobj
    have := (hnew _ rfl).1
    rw [CallsiteData.inuseObjects_sampled] at this
    omega
  · rw [if_neg hid] at hnew hobj
    have := (hnew d rfl).1
    omega

/-- **A sample keeps the in-use counters exact exactly at an address without a live
entry.** -/
theorem exact_recordSample_iff (hs : h.Sound) (he : h.Exact) (ptr size : ℕ) (stack : List ℕ) :
    (h.recordSample ptr size stack).Exact ↔ h.liveAt ptr = none := by
  constructor
  · intro hex
    cases hp : h.liveAt ptr with
    | none => rfl
    | some v => exact absurd hex (not_exact_recordSample hs he hp size stack)
  · exact fun hp => he.recordSample hs hp size stack

/-- A free always keeps the in-use counters exact. -/
theorem Exact.recordDealloc (he : h.Exact) (ptr size : ℕ) : (h.recordDealloc ptr size).Exact := by
  cases hp : h.liveAt ptr with
  | none => rwa [recordDealloc_of_none hp]
  | some v =>
    intro a d hd
    have hobj := liveSum_recordDealloc hp size (objectsOf a)
    have hbyt := liveSum_recordDealloc hp size (bytesOf a)
    rw [← liveObjects, ← liveObjects, objectsOf] at hobj
    rw [← liveBytes, ← liveBytes, bytesOf] at hbyt
    rw [callsites_recordDealloc hp] at hd
    by_cases hid : v.1 = a
    · rw [if_pos hid] at hd hobj hbyt
      obtain ⟨d₀, hd₀, rfl⟩ := Option.map_eq_some_iff.mp hd
      have hold := he a d₀ hd₀
      rw [CallsiteData.inuseObjects_freed, CallsiteData.inuseBytes_freed]
      omega
    · rw [if_neg hid] at hd hobj hbyt
      have hold := he a d hd
      omega

/-- A stack that was never sampled has no samples to count. -/
theorem Counts.getD (hs : h.Sound) {samples : List Sample} (hc : h.Counts samples)
    {ips : List ℕ} {a : ℕ} (ha : (h.callsiteId ips).1 = a) :
    ((h.callsites.get? a).getD (CallsiteData.fresh ips)).allocObjects =
        sampleObjects ips samples ∧
      ((h.callsites.get? a).getD (CallsiteData.fresh ips)).allocBytes =
        sampleBytes ips samples := by
  cases hd : h.callsites.get? a with
  | some d =>
    have := hc.exact a d hd
    rwa [(callsiteId_eq_iff hs.toAgree hd).mp ha] at this
  | none =>
    have hl : h.lookup ips = none := by
      cases hl : h.lookup ips with
      | none => rfl
      | some id =>
        obtain ⟨d, hd', -⟩ := hs.data _ id hl
        have hid : id = a := by rw [← ha, callsiteId_of_some hl]
        rw [hid, hd] at hd'
        cases hd'
    have hno : ∀ s ∈ samples, ¬(decide (s.ips = ips) = true) := by
      intro s hmem hips
      rw [decide_eq_true_eq] at hips
      exact hc.named s hmem (by rw [hips, hl])
    have hcount : sampleObjects ips samples = 0 := List.countP_eq_zero.mpr hno
    have hbytes : sampleBytes ips samples = 0 := by
      rw [sampleBytes, List.filter_eq_nil_iff.mpr hno]
      rfl
    rw [hcount, hbytes]
    exact ⟨rfl, rfl⟩

theorem Counts.recordSample (hs : h.Sound) {samples : List Sample} (hc : h.Counts samples)
    (ptr size : ℕ) (stack : List ℕ) :
    (h.recordSample ptr size stack).Counts (⟨capture stack, size⟩ :: samples) := by
  constructor
  · intro a d hd
    rw [callsites_recordSample hs.toAgree] at hd
    by_cases hid : (h.callsiteId (capture stack)).1 = a
    · rw [if_pos hid, Option.some.injEq] at hd
      have hips := ips_callsiteId hs.toAgree (capture stack)
      rw [hid] at hips
      obtain ⟨hobj, hbyt⟩ := Counts.getD hs hc hid
      rw [← hd, CallsiteData.allocObjects_sampled, CallsiteData.allocBytes_sampled,
        CallsiteData.ips_sampled, hips, hobj, hbyt]
      simp [sampleObjects, sampleBytes, Nat.add_comm]
    · rw [if_neg hid] at hd
      have hne : capture stack ≠ d.ips :=
        fun e => hid ((callsiteId_eq_iff hs.toAgree hd).mpr e.symm)
      have := hc.exact a d hd
      simpa [sampleObjects, sampleBytes, hne] using this
  · intro s hmem
    rw [lookup_recordSample]
    rcases List.mem_cons.mp hmem with rfl | hold
    · rw [if_pos rfl]
      exact Option.some_ne_none _
    · split
      · exact Option.some_ne_none _
      · exact hc.named s hold

theorem Counts.recordDealloc {samples : List Sample} (hc : h.Counts samples) (ptr size : ℕ) :
    (h.recordDealloc ptr size).Counts samples := by
  cases hp : h.liveAt ptr with
  | none => rwa [recordDealloc_of_none hp]
  | some v =>
    constructor
    · intro a d hd
      rw [callsites_recordDealloc hp] at hd
      split at hd
      · obtain ⟨d₀, hd₀, rfl⟩ := Option.map_eq_some_iff.mp hd
        exact hc.exact a d₀ hd₀
      · exact hc.exact a d hd
    · intro s hmem
      rw [lookup_recordDealloc]
      exact hc.named s hmem

end Counters

end HeapState

end Rpprof
