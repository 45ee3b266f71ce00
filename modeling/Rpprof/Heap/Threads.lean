import Rpprof.Heap.Hooks
import Rpprof.Lib.Machine
import Mathlib.Data.Fintype.Basic

/-!
# The heap profiler under threads

Any number of threads inside the hooks and `reset` at once, one step of one thread
at a time.  A step is a call of the inner allocator, a section under one lock, or
one atomic update.  Two locks are held across steps, the write lock of the stack map
while an id is created and the read lock of the callsites while counters are updated;
who holds them is read off the threads' program counters.

Profiling is on throughout, and a thread's `IN_ALLOC` is up exactly while it is not
idle, so neither is kept.

## Main definitions

* `Pc` — where a thread is, with its local variables.
* `Pc.next` — one step of a thread inside the profiler.
* `Pool` — the tables, the threads and the heap they allocate from.
* `Pool.step` — one step of one thread, or the beginning of an operation.

## Main results

* `Pc.next_spec` — what one step inside the profiler can do, guards included.
* `Pool.step_spec` — the same for one step of the pool.
-/

namespace Rpprof

open HeapState (Sample capture)

/-- The steps of `record_sample`, in order. -/
inductive SampleStep where
  /-- Before the read-locked lookup of the stack. -/
  | lookup
  /-- The lookup failed; before the write lock of the stack map. -/
  | acquire
  /-- The entry is vacant; before `next_callsite_id.fetch_add`. -/
  | draw
  /-- Before the write-locked insert of the data. -/
  | fill (id : ℕ)
  /-- Before the entry takes the id and the write lock is released. -/
  | bind (id : ℕ)
  /-- The id is known; before `callsites.read` and the lookup of its data. -/
  | find (id : ℕ)
  | allocObjects (id : ℕ)
  | allocBytes (id : ℕ)
  | inuseObjects (id : ℕ)
  | inuseBytes (id : ℕ)
  /-- Before `shard.live.insert`. -/
  | insert (id : ℕ)
deriving DecidableEq, Repr

/-- The steps of `record_dealloc`, in order. -/
inductive RemoveStep where
  /-- Before `shard.live.remove`. -/
  | remove
  /-- An entry came out; before `callsites.read` and the lookup of its data. -/
  | find (id size : ℕ)
  | inuseObjects (id size : ℕ)
  | inuseBytes (id size : ℕ)
deriving DecidableEq, Repr

/-- The steps of `reset`, in order. -/
inductive ResetStep where
  | shard (i : Fin numShards)
  | map
  | callsites
  | nextId
deriving DecidableEq, Repr

/-- What follows `record_dealloc`: `dealloc` releases the address, `realloc` records
the new one. -/
inductive After where
  | release
  | sample (newPtr newSize : ℕ) (ips : List ℕ)
deriving DecidableEq, Repr

/-- Where a thread is. -/
inductive Pc where
  /-- Outside the profiler. -/
  | idle
  /-- In `record_sample` for a block. -/
  | sampling (at_ : SampleStep) (ptr size : ℕ) (ips : List ℕ)
  /-- In `record_dealloc` for an address. -/
  | removing (at_ : RemoveStep) (ptr : ℕ) (after : After)
  /-- Before the inner allocator takes the address back. -/
  | releasing (ptr : ℕ)
  /-- In `reset`. -/
  | resetting (at_ : ResetStep)
deriving DecidableEq, Repr

namespace Pc

/-- The thread holds the write lock of the stack map. -/
def holdsMap : Pc → Bool
  | sampling .draw _ _ _ | sampling (.fill _) _ _ _ | sampling (.bind _) _ _ _ => true
  | _ => false

/-- The thread holds the read lock of the callsites. -/
def readsCallsites : Pc → Bool
  | sampling (.allocObjects _) _ _ _ | sampling (.allocBytes _) _ _ _ => true
  | sampling (.inuseObjects _) _ _ _ | sampling (.inuseBytes _) _ _ _ => true
  | removing (.inuseObjects _ _) _ _ | removing (.inuseBytes _ _) _ _ => true
  | _ => false

/-- Where a thread goes when `record_dealloc` returns. -/
def afterRemoving (ptr : ℕ) : After → Pc
  | .release => releasing ptr
  | .sample newPtr newSize ips => sampling .lookup newPtr newSize ips

/-- The shard after this one, or the stack map. -/
def afterShard (i : Fin numShards) : Pc :=
  if h : i.val + 1 < numShards then resetting (.shard ⟨i.val + 1, h⟩) else resetting .map

/-- One step of a thread inside the profiler, unless it waits for a lock: `mapFree` and
`callsitesFree` say that nobody holds the write lock of the stack map and the read
lock of the callsites. -/
def next (h : HeapState) (mapFree callsitesFree : Bool) : Pc → Option (HeapState × Pc)
  | idle => none
  | sampling .lookup ptr size ips =>
    if mapFree then
      match h.lookup ips with
      | some id => some (h, sampling (.find id) ptr size ips)
      | none => some (h, sampling .acquire ptr size ips)
    else none
  | sampling .acquire ptr size ips =>
    -- looked up again under the write lock: another thread may have bound it
    if mapFree then
      match h.lookup ips with
      | some id => some (h, sampling (.find id) ptr size ips)
      | none => some (h, sampling .draw ptr size ips)
    else none
  | sampling .draw ptr size ips =>
    some (h.drawId.2, sampling (.fill h.drawId.1) ptr size ips)
  | sampling (.fill id) ptr size ips =>
    -- `callsites.write` inside the write lock of the map: it waits for the readers
    if callsitesFree then some (h.insertCallsite id ips, sampling (.bind id) ptr size ips)
    else none
  | sampling (.bind id) ptr size ips =>
    some (h.bindStack ips id, sampling (.find id) ptr size ips)
  | sampling (.find id) ptr size ips =>
    match h.callsites.get? id with
    | some _ => some (h, sampling (.allocObjects id) ptr size ips)
    -- no data: nothing is counted, but the entry is inserted all the same
    | none => some (h, sampling (.insert id) ptr size ips)
  | sampling (.allocObjects id) ptr size ips =>
    some (h.updateCallsite id CallsiteData.addAllocObjects, sampling (.allocBytes id) ptr size ips)
  | sampling (.allocBytes id) ptr size ips =>
    some (h.updateCallsite id (CallsiteData.addAllocBytes size),
      sampling (.inuseObjects id) ptr size ips)
  | sampling (.inuseObjects id) ptr size ips =>
    some (h.updateCallsite id CallsiteData.addInuseObjects, sampling (.inuseBytes id) ptr size ips)
  | sampling (.inuseBytes id) ptr size ips =>
    some (h.updateCallsite id (CallsiteData.addInuseBytes size),
      sampling (.insert id) ptr size ips)
  | sampling (.insert id) ptr size _ => some (h.insertLive ptr id size, idle)
  | removing .remove ptr after =>
    match h.removeLive ptr with
    | (some (id, allocSize), h') => some (h', removing (.find id allocSize) ptr after)
    | (none, h') => some (h', afterRemoving ptr after)
  | removing (.find id allocSize) ptr after =>
    match h.callsites.get? id with
    | some _ => some (h, removing (.inuseObjects id allocSize) ptr after)
    -- the data are gone with a reset, and their counters with them
    | none => some (h, afterRemoving ptr after)
  | removing (.inuseObjects id allocSize) ptr after =>
    some (h.updateCallsite id CallsiteData.subInuseObjects,
      removing (.inuseBytes id allocSize) ptr after)
  | removing (.inuseBytes id allocSize) ptr after =>
    some (h.updateCallsite id (CallsiteData.subInuseBytes allocSize), afterRemoving ptr after)
  | releasing _ => some (h, idle)
  | resetting (.shard i) => some (h.clearShard i, afterShard i)
  | resetting .map => if mapFree then some (h.clearMap, resetting .callsites) else none
  | resetting .callsites =>
    if callsitesFree then some (h.clearCallsites, resetting .nextId) else none
  | resetting .nextId => some (h.storeNextId, idle)

/-- The steps of a thread inside the profiler, one by one. -/
inductive Next (h : HeapState) (mapFree callsitesFree : Bool) : Pc → HeapState → Pc → Prop where
  | lookupHit {ptr size ips id} : mapFree = true → h.lookup ips = some id →
      Next h mapFree callsitesFree (sampling .lookup ptr size ips) h
        (sampling (.find id) ptr size ips)
  | lookupMiss {ptr size ips} : mapFree = true → h.lookup ips = none →
      Next h mapFree callsitesFree (sampling .lookup ptr size ips) h
        (sampling .acquire ptr size ips)
  | entryOccupied {ptr size ips id} : mapFree = true → h.lookup ips = some id →
      Next h mapFree callsitesFree (sampling .acquire ptr size ips) h
        (sampling (.find id) ptr size ips)
  | entryVacant {ptr size ips} : mapFree = true → h.lookup ips = none →
      Next h mapFree callsitesFree (sampling .acquire ptr size ips) h
        (sampling .draw ptr size ips)
  | draw {ptr size ips} :
      Next h mapFree callsitesFree (sampling .draw ptr size ips) h.drawId.2
        (sampling (.fill h.nextCallsiteId) ptr size ips)
  | fill {ptr size ips id} : callsitesFree = true →
      Next h mapFree callsitesFree (sampling (.fill id) ptr size ips) (h.insertCallsite id ips)
        (sampling (.bind id) ptr size ips)
  | bind {ptr size ips id} :
      Next h mapFree callsitesFree (sampling (.bind id) ptr size ips) (h.bindStack ips id)
        (sampling (.find id) ptr size ips)
  | findSome {ptr size ips id d} : h.callsites.get? id = some d →
      Next h mapFree callsitesFree (sampling (.find id) ptr size ips) h
        (sampling (.allocObjects id) ptr size ips)
  | findNone {ptr size ips id} : h.callsites.get? id = none →
      Next h mapFree callsitesFree (sampling (.find id) ptr size ips) h
        (sampling (.insert id) ptr size ips)
  | allocObjects {ptr size ips id} :
      Next h mapFree callsitesFree (sampling (.allocObjects id) ptr size ips)
        (h.updateCallsite id CallsiteData.addAllocObjects) (sampling (.allocBytes id) ptr size ips)
  | allocBytes {ptr size ips id} :
      Next h mapFree callsitesFree (sampling (.allocBytes id) ptr size ips)
        (h.updateCallsite id (CallsiteData.addAllocBytes size))
        (sampling (.inuseObjects id) ptr size ips)
  | inuseObjects {ptr size ips id} :
      Next h mapFree callsitesFree (sampling (.inuseObjects id) ptr size ips)
        (h.updateCallsite id CallsiteData.addInuseObjects) (sampling (.inuseBytes id) ptr size ips)
  | inuseBytes {ptr size ips id} :
      Next h mapFree callsitesFree (sampling (.inuseBytes id) ptr size ips)
        (h.updateCallsite id (CallsiteData.addInuseBytes size)) (sampling (.insert id) ptr size ips)
  | insert {ptr size ips id} :
      Next h mapFree callsitesFree (sampling (.insert id) ptr size ips) (h.insertLive ptr id size)
        idle
  | removeSome {ptr after id allocSize} : h.liveAt ptr = some (id, allocSize) →
      Next h mapFree callsitesFree (removing .remove ptr after) (h.eraseLive ptr)
        (removing (.find id allocSize) ptr after)
  | removeNone {ptr after} : h.liveAt ptr = none →
      Next h mapFree callsitesFree (removing .remove ptr after) h (afterRemoving ptr after)
  | settleSome {ptr after id allocSize d} : h.callsites.get? id = some d →
      Next h mapFree callsitesFree (removing (.find id allocSize) ptr after) h
        (removing (.inuseObjects id allocSize) ptr after)
  | settleNone {ptr after id allocSize} : h.callsites.get? id = none →
      Next h mapFree callsitesFree (removing (.find id allocSize) ptr after) h
        (afterRemoving ptr after)
  | subObjects {ptr after id allocSize} :
      Next h mapFree callsitesFree (removing (.inuseObjects id allocSize) ptr after)
        (h.updateCallsite id CallsiteData.subInuseObjects)
        (removing (.inuseBytes id allocSize) ptr after)
  | subBytes {ptr after id allocSize} :
      Next h mapFree callsitesFree (removing (.inuseBytes id allocSize) ptr after)
        (h.updateCallsite id (CallsiteData.subInuseBytes allocSize)) (afterRemoving ptr after)
  | release {ptr} : Next h mapFree callsitesFree (releasing ptr) h idle
  | clearShard {i} :
      Next h mapFree callsitesFree (resetting (.shard i)) (h.clearShard i) (afterShard i)
  | clearMap : mapFree = true →
      Next h mapFree callsitesFree (resetting .map) h.clearMap (resetting .callsites)
  | clearCallsites : callsitesFree = true →
      Next h mapFree callsitesFree (resetting .callsites) h.clearCallsites (resetting .nextId)
  | storeNextId : Next h mapFree callsitesFree (resetting .nextId) h.storeNextId idle

/-- **Every step inside the profiler is one of the listed ones.** -/
theorem next_spec {h h' : HeapState} {mapFree callsitesFree : Bool} {pc pc' : Pc}
    (hnext : pc.next h mapFree callsitesFree = some (h', pc')) :
    Next h mapFree callsitesFree pc h' pc' := by
  cases pc with
  | idle => cases hnext
  | sampling at_ ptr size ips =>
    cases at_ with
    | lookup =>
      simp only [next] at hnext
      split at hnext
      · next hfree =>
        cases hl : h.lookup ips with
        | some id => rw [hl] at hnext; cases hnext; exact .lookupHit hfree hl
        | none => rw [hl] at hnext; cases hnext; exact .lookupMiss hfree hl
      · cases hnext
    | acquire =>
      simp only [next] at hnext
      split at hnext
      · next hfree =>
        cases hl : h.lookup ips with
        | some id => rw [hl] at hnext; cases hnext; exact .entryOccupied hfree hl
        | none => rw [hl] at hnext; cases hnext; exact .entryVacant hfree hl
      · cases hnext
    | draw => cases hnext; exact .draw
    | fill id =>
      simp only [next] at hnext
      split at hnext
      · next hfree => cases hnext; exact .fill hfree
      · cases hnext
    | bind id => cases hnext; exact .bind
    | find id =>
      simp only [next] at hnext
      cases hd : h.callsites.get? id with
      | some d => rw [hd] at hnext; cases hnext; exact .findSome hd
      | none => rw [hd] at hnext; cases hnext; exact .findNone hd
    | allocObjects id => cases hnext; exact .allocObjects
    | allocBytes id => cases hnext; exact .allocBytes
    | inuseObjects id => cases hnext; exact .inuseObjects
    | inuseBytes id => cases hnext; exact .inuseBytes
    | insert id => cases hnext; exact .insert
  | removing at_ ptr after =>
    cases at_ with
    | remove =>
      simp only [next, HeapState.removeLive] at hnext
      cases hl : h.liveAt ptr with
      | some v => rw [hl] at hnext; cases hnext; exact .removeSome hl
      | none =>
        -- the shard is left as it was
        rw [hl, HeapState.eraseLive_of_none hl] at hnext
        cases hnext
        exact .removeNone hl
    | find id allocSize =>
      simp only [next] at hnext
      cases hd : h.callsites.get? id with
      | some d => rw [hd] at hnext; cases hnext; exact .settleSome hd
      | none => rw [hd] at hnext; cases hnext; exact .settleNone hd
    | inuseObjects id allocSize => cases hnext; exact .subObjects
    | inuseBytes id allocSize => cases hnext; exact .subBytes
  | releasing ptr => cases hnext; exact .release
  | resetting at_ =>
    cases at_ with
    | shard i => cases hnext; exact .clearShard
    | map =>
      simp only [next] at hnext
      split at hnext
      · next hfree => cases hnext; exact .clearMap hfree
      · cases hnext
    | callsites =>
      simp only [next] at hnext
      split at hnext
      · next hfree => cases hnext; exact .clearCallsites hfree
      · cases hnext
    | nextId => cases hnext; exact .storeNextId

end Pc

/-- Whose hands a block is in. -/
inductive Phase (Thread : Type) where
  /-- Allocated by a hook that has not returned yet. -/
  | recording (t : Thread)
  /-- The caller's, to use, free or move. -/
  | ready
  /-- Given to `dealloc`, which has not released it yet. -/
  | freeing (t : Thread)
deriving DecidableEq, Repr

/-- An allocated block: its size, the stack of its latest allocation if that was sampled,
and whose it is. -/
structure Cell (Thread : Type) where
  size : ℕ
  sample : Option (List ℕ)
  phase : Phase Thread
deriving DecidableEq, Repr

/-- The tables, the threads, and the heap. -/
structure Pool (Thread : Type) where
  heap : HeapState
  sampleRate : ℕ
  bytesLeft : Thread → ℤ
  pc : Thread → Pc
  /-- The allocated addresses. -/
  blocks : ℕ → Option (Cell Thread)
  /-- The calls of `record_sample` so far, latest first. -/
  samples : List Sample

/-- A thread begins an operation, with the inner allocator's answer and the call stack
it is made from, or goes on with the one it is in. -/
inductive Move (Thread : Type) where
  | alloc (t : Thread) (ptr size : ℕ) (stack : List ℕ)
  | dealloc (t : Thread) (ptr : ℕ)
  | realloc (t : Thread) (ptr newPtr newSize : ℕ) (stack : List ℕ)
  | reset (t : Thread)
  | advance (t : Thread)
deriving DecidableEq, Repr

namespace Pool

variable {Thread : Type} [DecidableEq Thread]

/-- The state a process enters with the blocks it has allocated so far. -/
def init (sampleRate : ℕ) (bytesLeft : Thread → ℤ) (sizes : ℕ → Option ℕ) : Pool Thread where
  heap := HeapState.new
  sampleRate := sampleRate
  bytesLeft := bytesLeft
  pc := fun _ => .idle
  blocks := fun p => (sizes p).map fun size => ⟨size, none, .ready⟩
  samples := []

/-- The thread locals an allocation of the thread finds. -/
def tls (s : Pool Thread) (t : Thread) : Tls := ⟨false, s.bytesLeft t⟩

/-- What a step does to the block it is about: the insert of a live entry ends its
allocation, and the inner allocator's `dealloc` takes it away. -/
def settle (pc : Pc) (blocks : ℕ → Option (Cell Thread)) : ℕ → Option (Cell Thread) :=
  match pc with
  | .sampling (.insert _) ptr _ _ =>
    Function.update blocks ptr ((blocks ptr).map fun c => { c with phase := .ready })
  | .releasing ptr => Function.update blocks ptr none
  | _ => blocks

/-- An allocation that will be sampled, after the inner allocator's answer. -/
def beginSampled (s : Pool Thread) (t : Thread) (ptr size : ℕ) (stack : List ℕ) : Pool Thread :=
  { s with
    bytesLeft := Function.update s.bytesLeft t (asIsize s.sampleRate)
    pc := Function.update s.pc t (.sampling .lookup ptr size (capture stack))
    blocks := Function.update s.blocks ptr (some ⟨size, some (capture stack), .recording t⟩)
    samples := ⟨capture stack, size⟩ :: s.samples }

/-- An allocation that is not sampled, from beginning to end. -/
def allocUnsampled (s : Pool Thread) (t : Thread) (ptr size : ℕ) : Pool Thread :=
  { s with
    bytesLeft := Function.update s.bytesLeft t ((s.tls t).remaining size)
    blocks := Function.update s.blocks ptr (some ⟨size, none, .ready⟩) }

/-- A `dealloc`, before anything is recorded. -/
def beginDealloc (s : Pool Thread) (t : Thread) (ptr : ℕ) (c : Cell Thread) : Pool Thread :=
  { s with
    pc := Function.update s.pc t (.removing .remove ptr .release)
    blocks := Function.update s.blocks ptr (some { c with phase := .freeing t }) }

/-- A `realloc` that the inner allocator has granted: the old address is released, the
new one allocated, and nothing recorded yet. -/
def beginRealloc (s : Pool Thread) (t : Thread) (ptr newPtr newSize : ℕ) (stack : List ℕ) :
    Pool Thread :=
  { s with
    pc := Function.update s.pc t (.removing .remove ptr (.sample newPtr newSize (capture stack)))
    blocks := Function.update (Function.update s.blocks ptr none) newPtr
      (some ⟨newSize, some (capture stack), .recording t⟩)
    samples := ⟨capture stack, newSize⟩ :: s.samples }

/-- A `reset`, before its first section. -/
def beginReset (s : Pool Thread) (t : Thread) : Pool Thread :=
  { s with pc := Function.update s.pc t (.resetting (.shard ⟨0, by decide⟩)) }

/-- The block a caller may free or move: only one that no hook is busy with. -/
def readyCell (s : Pool Thread) (ptr : ℕ) : Option (Cell Thread) :=
  (s.blocks ptr).filter fun c => decide (c.phase = .ready)

variable [Fintype Thread]

/-- Nobody holds the write lock of the stack map. -/
def mapFree (s : Pool Thread) : Bool := decide (∀ t, (s.pc t).holdsMap = false)

/-- Nobody holds the read lock of the callsites. -/
def callsitesFree (s : Pool Thread) : Bool := decide (∀ t, (s.pc t).readsCallsites = false)

/-- One step.  The inner allocator answers null or an address that is not allocated, or
for `realloc` the old one; only a caller's own block is freed or moved. -/
def step (s : Pool Thread) : Move Thread → Option (Pool Thread)
  | .alloc t ptr size stack =>
    if s.pc t = .idle ∧ (ptr = 0 ∨ s.blocks ptr = none) then
      if ptr = 0 then some s
      else if (s.tls t).remaining size ≤ 0 then some (s.beginSampled t ptr size stack)
      else some (s.allocUnsampled t ptr size)
    else none
  | .dealloc t ptr =>
    match s.readyCell ptr with
    | some c => if s.pc t = .idle then some (s.beginDealloc t ptr c) else none
    | none => none
  | .realloc t ptr newPtr newSize stack =>
    match s.readyCell ptr with
    | some _ =>
      if s.pc t = .idle ∧ (newPtr = 0 ∨ newPtr = ptr ∨ s.blocks newPtr = none) then
        if newPtr = 0 then some s else some (s.beginRealloc t ptr newPtr newSize stack)
      else none
    | none => none
  | .reset t => if s.pc t = .idle then some (s.beginReset t) else none
  | .advance t =>
    match (s.pc t).next s.heap s.mapFree s.callsitesFree with
    | some (h, pc) => some { s with
        heap := h
        pc := Function.update s.pc t pc
        blocks := settle (s.pc t) s.blocks }
    | none => none

/-- The steps of the pool, one by one. -/
inductive Step (s : Pool Thread) : Move Thread → Pool Thread → Prop where
  /-- The inner allocator answered null. -/
  | null {m} : Step s m s
  | beginSampled {t ptr size stack} : s.pc t = .idle → s.blocks ptr = none →
      Step s (.alloc t ptr size stack) (s.beginSampled t ptr size stack)
  | allocUnsampled {t ptr size stack} : s.pc t = .idle → s.blocks ptr = none →
      Step s (.alloc t ptr size stack) (s.allocUnsampled t ptr size)
  | beginDealloc {t ptr c} : s.pc t = .idle → s.blocks ptr = some c → c.phase = .ready →
      Step s (.dealloc t ptr) (s.beginDealloc t ptr c)
  | beginRealloc {t ptr newPtr newSize stack c} : s.pc t = .idle → s.blocks ptr = some c →
      c.phase = .ready → newPtr = ptr ∨ s.blocks newPtr = none →
      Step s (.realloc t ptr newPtr newSize stack) (s.beginRealloc t ptr newPtr newSize stack)
  | beginReset {t} : s.pc t = .idle → Step s (.reset t) (s.beginReset t)
  | advance {t h pc} : (s.pc t).Next s.heap s.mapFree s.callsitesFree h pc →
      Step s (.advance t) { s with
        heap := h
        pc := Function.update s.pc t pc
        blocks := settle (s.pc t) s.blocks }

omit [Fintype Thread] in
theorem readyCell_eq_some {s : Pool Thread} {ptr : ℕ} {c : Cell Thread}
    (h : s.readyCell ptr = some c) : s.blocks ptr = some c ∧ c.phase = .ready := by
  simpa [readyCell, Option.filter_eq_some_iff] using h

/-- **Every step of the pool is one of the listed ones.** -/
theorem step_spec {s s' : Pool Thread} {m : Move Thread} (h : s.step m = some s') :
    s.Step m s' := by
  cases m with
  | alloc t ptr size stack =>
    simp only [step] at h
    split at h
    · next hguard =>
      obtain ⟨hidle, hfree⟩ := hguard
      split at h
      · cases h; exact .null
      · next hp =>
        have hnone : s.blocks ptr = none := hfree.resolve_left hp
        split at h
        · cases h; exact .beginSampled hidle hnone
        · cases h; exact .allocUnsampled hidle hnone
    · cases h
  | dealloc t ptr =>
    simp only [step] at h
    split at h
    · next c hc =>
      obtain ⟨hblock, hready⟩ := readyCell_eq_some hc
      split at h
      · next hidle => cases h; exact .beginDealloc hidle hblock hready
      · cases h
    · cases h
  | realloc t ptr newPtr newSize stack =>
    simp only [step] at h
    split at h
    · next c hc =>
      obtain ⟨hblock, hready⟩ := readyCell_eq_some hc
      split at h
      · next hguard =>
        obtain ⟨hidle, hfree⟩ := hguard
        split at h
        · cases h; exact .null
        · next hp =>
          cases h
          exact .beginRealloc hidle hblock hready (hfree.resolve_left hp)
      · cases h
    · cases h
  | reset t =>
    simp only [step] at h
    split at h
    · next hidle => cases h; exact .beginReset hidle
    · cases h
  | advance t =>
    simp only [step] at h
    split at h
    · next h' pc hnext =>
      cases h
      exact .advance (Pc.next_spec hnext)
    · cases h

end Pool

end Rpprof
