import Rpprof.Heap.Hooks
import Rpprof.Lib.Machine

/-!
# The profiled heap, one operation at a time

The allocator hooks over a real heap: blocks are handed out at free addresses,
freed and reallocated only while they are allocated, and beside each block stands
whether its latest allocation was sampled since the last reset.  Threads take
turns, one whole operation at a time.

## Main definitions

* `Sys` — the profiler, the threads' locals, the blocks and the samples taken.
* `Sys.step` — one operation; the environment chooses addresses and stacks.
* `Sys.Tracks` — the tables are the ledger of the heap.
* `Sys.StaleHit` — an operation records a sample over an entry left behind.

## Main results

* `Sys.tracks_of_reach` — while profiling stays on, the tables track the heap.
* `Sys.exactAlong_iff` — with pauses, the in-use counters are exact along a run
  exactly when no sample of it lands on an entry left behind.
-/

namespace Rpprof

open HeapState (Sample capture)

/-- An allocated block: its size, and the stack of its latest allocation if that was
sampled since the last reset. -/
structure Block where
  size : ℕ
  sample : Option (List ℕ)
deriving DecidableEq, Repr

/-- The profiler and the heap it watches. -/
structure Sys (Thread : Type) where
  statics : Statics
  tls : Thread → Tls
  /-- The allocated addresses. -/
  blocks : Table ℕ Block
  /-- The samples recorded since the last reset, latest first. -/
  samples : List Sample

/-- An operation, with the inner allocator's answer and the call stack it is made from. -/
inductive Op (Thread : Type) where
  | alloc (t : Thread) (ptr size : ℕ) (stack : List ℕ)
  | dealloc (t : Thread) (ptr : ℕ)
  | realloc (t : Thread) (ptr newPtr newSize : ℕ) (stack : List ℕ)
  | start
  | stop
  | reset
  | setSampleRate (rateBytes : ℕ)
deriving DecidableEq, Repr

namespace Sys

variable {Thread : Type} [DecidableEq Thread]

/-- The state a process enters with the blocks it has allocated so far. -/
def init (isProfiling : Bool) (sampleRate : ℕ) (bytesLeft : Thread → ℤ) (sizes : Table ℕ ℕ) :
    Sys Thread where
  statics := ⟨isProfiling, sampleRate, HeapState.new⟩
  tls := fun t => ⟨false, bytesLeft t⟩
  blocks := sizes.mapValues fun size => ⟨size, none⟩
  samples := []

/-- The stack a block carries after an allocation, sampled or not. -/
def sampleIf (sampled : Bool) (stack : List ℕ) : Option (List ℕ) :=
  if sampled then some (capture stack) else none

/-- The samples after an allocation, sampled or not. -/
def addSampleIf (sampled : Bool) (size : ℕ) (stack : List ℕ) (samples : List Sample) :
    List Sample :=
  if sampled then ⟨capture stack, size⟩ :: samples else samples

/-- After `alloc`: the hook has run, and the block is there unless the answer was null. -/
def afterAlloc (s : Sys Thread) (t : Thread) (ptr size : ℕ) (stack : List ℕ) : Sys Thread where
  statics := (s.statics.alloc (s.tls t) ptr size stack).1
  tls := Function.update s.tls t (s.statics.alloc (s.tls t) ptr size stack).2
  blocks := if ptr = 0 then s.blocks else
    s.blocks.insert ptr ⟨size, sampleIf (s.statics.allocSamples (s.tls t) ptr size) stack⟩
  samples := addSampleIf (s.statics.allocSamples (s.tls t) ptr size) size stack s.samples

/-- After `dealloc`: the hook has run, and the block is gone. -/
def afterDealloc (s : Sys Thread) (t : Thread) (ptr size : ℕ) : Sys Thread where
  statics := (s.statics.dealloc (s.tls t) ptr size).1
  tls := Function.update s.tls t (s.statics.dealloc (s.tls t) ptr size).2
  blocks := s.blocks.erase ptr
  samples := s.samples

/-- After `realloc`: the hook has run, and the block is at its new address unless the
answer was null. -/
def afterRealloc (s : Sys Thread) (t : Thread) (ptr size newPtr newSize : ℕ) (stack : List ℕ) :
    Sys Thread where
  statics := (s.statics.realloc (s.tls t) ptr size newPtr newSize stack).1
  tls := Function.update s.tls t (s.statics.realloc (s.tls t) ptr size newPtr newSize stack).2
  blocks := if newPtr = 0 then s.blocks else
    (s.blocks.erase ptr).insert newPtr
      ⟨newSize, sampleIf (s.statics.reallocSamples (s.tls t) newPtr) stack⟩
  samples := addSampleIf (s.statics.reallocSamples (s.tls t) newPtr) newSize stack s.samples

/-- One operation.  The inner allocator answers null or an address that is not
allocated, or for `realloc` the old one; only an allocated block is freed or moved. -/
def step (s : Sys Thread) : Op Thread → Option (Sys Thread)
  | .alloc t ptr size stack =>
    if ptr = 0 ∨ s.blocks.get? ptr = none then some (s.afterAlloc t ptr size stack) else none
  | .dealloc t ptr =>
    match s.blocks.get? ptr with
    | some b => some (s.afterDealloc t ptr b.size)
    | none => none
  | .realloc t ptr newPtr newSize stack =>
    match s.blocks.get? ptr with
    | some b =>
      if newPtr = 0 ∨ newPtr = ptr ∨ s.blocks.get? newPtr = none then
        some (s.afterRealloc t ptr b.size newPtr newSize stack)
      else none
    | none => none
  | .start => some { s with statics := s.statics.start }
  | .stop => some { s with statics := s.statics.stop }
  | .reset => some { s with
      statics := s.statics.reset
      blocks := s.blocks.mapValues fun b => { b with sample := none }
      samples := [] }
  | .setSampleRate rateBytes => some { s with statics := s.statics.setSampleRate rateBytes }

/-- The tables. -/
abbrev heap (s : Sys Thread) : HeapState := s.statics.heap

/-- What one operation can do to the tables: the whole of it, guards included. -/
theorem step_heap {s s' : Sys Thread} {op : Op Thread} (h : s.step op = some s') :
    (∃ t ptr size stack, op = .alloc t ptr size stack ∧
      (ptr = 0 ∨ s.blocks.get? ptr = none) ∧ s' = s.afterAlloc t ptr size stack) ∨
    (∃ t ptr b, op = .dealloc t ptr ∧ s.blocks.get? ptr = some b ∧
      s' = s.afterDealloc t ptr b.size) ∨
    (∃ t ptr b newPtr newSize stack, op = .realloc t ptr newPtr newSize stack ∧
      s.blocks.get? ptr = some b ∧
      (newPtr = 0 ∨ newPtr = ptr ∨ s.blocks.get? newPtr = none) ∧
      s' = s.afterRealloc t ptr b.size newPtr newSize stack) ∨
    (op = .reset ∧ s' = { s with
      statics := s.statics.reset
      blocks := s.blocks.mapValues fun b => { b with sample := none }
      samples := [] }) ∨
    ((op = .start ∨ op = .stop ∨ ∃ r, op = .setSampleRate r) ∧ s'.heap = s.heap ∧
      s'.tls = s.tls ∧ s'.blocks = s.blocks ∧ s'.samples = s.samples ∧
      (op ≠ .stop → s.statics.isProfiling = true → s'.statics.isProfiling = true)) := by
  cases op with
  | alloc t ptr size stack =>
    simp only [step] at h
    split at h
    · next hfree =>
      rw [Option.some.injEq] at h
      exact Or.inl ⟨t, ptr, size, stack, rfl, hfree, h.symm⟩
    · cases h
  | dealloc t ptr =>
    simp only [step] at h
    split at h
    · next b hb =>
      rw [Option.some.injEq] at h
      exact Or.inr (Or.inl ⟨t, ptr, b, rfl, hb, h.symm⟩)
    · cases h
  | realloc t ptr newPtr newSize stack =>
    simp only [step] at h
    split at h
    · next b hb =>
      split at h
      · next hfree =>
        rw [Option.some.injEq] at h
        exact Or.inr (Or.inr (Or.inl ⟨t, ptr, b, newPtr, newSize, stack, rfl, hb, hfree, h.symm⟩))
      · cases h
    · cases h
  | start =>
    rw [step, Option.some.injEq] at h
    subst h
    exact Or.inr (Or.inr (Or.inr (Or.inr ⟨Or.inl rfl, rfl, rfl, rfl, rfl, fun _ _ => rfl⟩)))
  | stop =>
    rw [step, Option.some.injEq] at h
    subst h
    exact Or.inr (Or.inr (Or.inr (Or.inr
      ⟨Or.inr (Or.inl rfl), rfl, rfl, rfl, rfl, fun hne => absurd rfl hne⟩)))
  | reset =>
    rw [step, Option.some.injEq] at h
    exact Or.inr (Or.inr (Or.inr (Or.inl ⟨rfl, h.symm⟩)))
  | setSampleRate r =>
    rw [step, Option.some.injEq] at h
    subst h
    exact Or.inr (Or.inr (Or.inr (Or.inr
      ⟨Or.inr (Or.inr ⟨r, rfl⟩), rfl, rfl, rfl, rfl, fun _ hon => hon⟩)))

/-! ### The ledger of the heap -/

/-- The live entries are those of the sampled blocks: each with the block's size and
the id of the block's stack. -/
structure Ledger (h : HeapState) (blocks : Table ℕ Block) : Prop where
  /-- An entry is of an allocated, sampled block. -/
  live : ∀ p v, h.liveAt p = some v → ∃ b ips, blocks.get? p = some b ∧ b.sample = some ips ∧
    h.lookup ips = some v.1 ∧ b.size = v.2
  /-- A sampled block has its entry. -/
  complete : ∀ p b ips, blocks.get? p = some b → b.sample = some ips →
    ∃ id, h.lookup ips = some id ∧ h.liveAt p = some (id, b.size)

namespace Ledger

variable {h : HeapState} {blocks : Table ℕ Block}

/-- No entry stands at an address that is not allocated. -/
theorem liveAt_of_free (hl : Ledger h blocks) {p : ℕ} (hp : blocks.get? p = none) :
    h.liveAt p = none := by
  cases hv : h.liveAt p with
  | none => rfl
  | some v =>
    obtain ⟨b, ips, hb, -⟩ := hl.live p v hv
    rw [hp] at hb
    cases hb

/-- A sampled allocation enters its block. -/
theorem sample (hl : Ledger h blocks) (ptr size : ℕ) (stack : List ℕ) :
    Ledger (h.recordSample ptr size stack)
      (blocks.insert ptr ⟨size, some (capture stack)⟩) := by
  -- a stack that had an id keeps it
  have hkeep : ∀ a id, h.lookup a = some id →
      (h.recordSample ptr size stack).lookup a = some id := by
    intro a id ha
    rw [HeapState.lookup_recordSample]
    split
    · next heq =>
      rw [← heq] at ha
      rw [HeapState.callsiteId_of_some ha]
    · exact ha
  constructor
  · intro p v hv
    rw [HeapState.liveAt_recordSample] at hv
    rw [Table.get?_insert]
    by_cases hp : ptr = p
    · rw [if_pos hp, Option.some.injEq] at hv
      rw [if_pos (beq_iff_eq.mpr hp)]
      refine ⟨_, _, rfl, rfl, ?_, by rw [← hv]⟩
      rw [HeapState.lookup_recordSample, if_pos rfl, ← hv]
    · rw [if_neg hp] at hv
      rw [if_neg (by simpa using hp)]
      obtain ⟨b, ips, hb, hs, hlook, hsize⟩ := hl.live p v hv
      exact ⟨b, ips, hb, hs, hkeep _ _ hlook, hsize⟩
  · intro p b ips hb hs
    rw [Table.get?_insert] at hb
    rw [HeapState.liveAt_recordSample]
    by_cases hp : ptr = p
    · rw [if_pos (beq_iff_eq.mpr hp), Option.some.injEq] at hb
      subst hb
      rw [if_pos hp]
      rw [Option.some.injEq] at hs
      exact ⟨_, by rw [HeapState.lookup_recordSample, if_pos hs], rfl⟩
    · rw [if_neg (by simpa using hp)] at hb
      rw [if_neg hp]
      obtain ⟨id, hlook, hlive⟩ := hl.complete p b ips hb hs
      exact ⟨id, hkeep _ _ hlook, hlive⟩

/-- An allocation that is not sampled leaves the entries alone. -/
theorem skip (hl : Ledger h blocks) {ptr : ℕ} (hfree : blocks.get? ptr = none) (size : ℕ) :
    Ledger h (blocks.insert ptr ⟨size, none⟩) := by
  constructor
  · intro p v hv
    obtain ⟨b, ips, hb, hrest⟩ := hl.live p v hv
    -- the new block was not allocated, so it is not the one of the entry
    have hp : ptr ≠ p := by
      rintro rfl
      rw [hfree] at hb
      cases hb
    exact ⟨b, ips, by rw [Table.get?_insert, if_neg (by simpa using hp), hb], hrest⟩
  · intro p b ips hb hs
    rw [Table.get?_insert] at hb
    split at hb
    · rw [Option.some.injEq] at hb
      subst hb
      cases hs
    · exact hl.complete p b ips hb hs

/-- A free takes the block out. -/
theorem free (hl : Ledger h blocks) (ptr size : ℕ) :
    Ledger (h.recordDealloc ptr size) (blocks.erase ptr) := by
  constructor
  · intro p v hv
    rw [HeapState.liveAt_recordDealloc] at hv
    split at hv
    · cases hv
    · next hp =>
      obtain ⟨b, ips, hb, hs, hlook, hsize⟩ := hl.live p v hv
      refine ⟨b, ips, ?_, hs, ?_, hsize⟩
      · rw [Table.get?_erase, if_neg (by simpa using hp), hb]
      · rw [HeapState.lookup_recordDealloc, hlook]
  · intro p b ips hb hs
    rw [Table.get?_erase] at hb
    split at hb
    · cases hb
    · next hp =>
      obtain ⟨id, hlook, hlive⟩ := hl.complete p b ips hb hs
      refine ⟨id, by rw [HeapState.lookup_recordDealloc, hlook], ?_⟩
      rw [HeapState.liveAt_recordDealloc, if_neg (by simpa using hp), hlive]

/-- Empty tables are the ledger of blocks none of which is sampled. -/
theorem of_unsampled (hnone : ∀ p b, blocks.get? p = some b → b.sample = none) :
    Ledger HeapState.new blocks := by
  constructor
  · intro p v hv; cases hv
  · intro p b ips hb hs
    rw [hnone p b hb] at hs
    cases hs

end Ledger

/-! ### What every run keeps -/

variable {s s' : Sys Thread} {op : Op Thread}

theorem heap_afterAlloc (s : Sys Thread) (t : Thread) (ptr size : ℕ) (stack : List ℕ) :
    (s.afterAlloc t ptr size stack).heap =
      if s.statics.allocSamples (s.tls t) ptr size then s.heap.recordSample ptr size stack
      else s.heap :=
  s.statics.heap_alloc (s.tls t) ptr size stack

theorem heap_afterDealloc (s : Sys Thread) (t : Thread) (ptr size : ℕ) :
    (s.afterDealloc t ptr size).heap =
      if s.statics.isProfiling && !(s.tls t).inAlloc then s.heap.recordDealloc ptr size
      else s.heap :=
  s.statics.heap_dealloc (s.tls t) ptr size

theorem heap_afterRealloc (s : Sys Thread) (t : Thread) (ptr size newPtr newSize : ℕ)
    (stack : List ℕ) : (s.afterRealloc t ptr size newPtr newSize stack).heap =
      if s.statics.reallocSamples (s.tls t) newPtr then
        (s.heap.recordDealloc ptr size).recordSample newPtr newSize stack
      else s.heap :=
  s.statics.heap_realloc (s.tls t) ptr size newPtr newSize stack

/-- Between operations no thread is inside a hook, and the tables are sound. -/
structure Base (s : Sys Thread) : Prop where
  idle : ∀ t, (s.tls t).inAlloc = false
  sound : s.heap.Sound

omit [DecidableEq Thread] in
theorem Base.init (on : Bool) (rate : ℕ) (bytesLeft : Thread → ℤ) (sizes : Table ℕ ℕ) :
    (init on rate bytesLeft sizes : Sys Thread).Base :=
  ⟨fun _ => rfl, HeapState.Sound.new⟩

/-- A thread's locals are the only ones that change, and its flag is down again. -/
theorem idle_update {tls : Thread → Tls} (h : ∀ t, (tls t).inAlloc = false) (t : Thread)
    {l : Tls} (hl : l.inAlloc = (tls t).inAlloc) (u : Thread) :
    (Function.update tls t l u).inAlloc = false := by
  by_cases hu : u = t
  · rw [hu, Function.update_self, hl, h]
  · rw [Function.update_of_ne hu, h]

/-- **Every operation keeps the tables sound**, whether profiling is on or off. -/
theorem Base.step (hb : s.Base) (h : s.step op = some s') : s'.Base := by
  rcases step_heap h with ⟨t, ptr, size, stack, -, -, rfl⟩ | ⟨t, ptr, b, -, -, rfl⟩ |
    ⟨t, ptr, b, newPtr, newSize, stack, -, -, -, rfl⟩ | ⟨-, rfl⟩ | ⟨-, hheap, htls, -⟩
  · constructor
    · exact idle_update hb.idle t (s.statics.inAlloc_alloc (s.tls t) ptr size stack)
    · rw [heap_afterAlloc]
      split
      · exact hb.sound.recordSample ptr size stack
      · exact hb.sound
  · constructor
    · exact idle_update hb.idle t (s.statics.inAlloc_dealloc (s.tls t) ptr b.size)
    · rw [heap_afterDealloc]
      split
      · exact hb.sound.recordDealloc ptr b.size
      · exact hb.sound
  · constructor
    · exact idle_update hb.idle t
        (s.statics.inAlloc_realloc (s.tls t) ptr b.size newPtr newSize stack)
    · rw [heap_afterRealloc]
      split
      · exact (hb.sound.recordDealloc ptr b.size).recordSample newPtr newSize stack
      · exact hb.sound
  · -- `reset` runs outside the hooks
    refine ⟨hb.idle, ?_⟩
    show s.heap.reset.Sound
    rw [HeapState.reset_eq_new]
    exact HeapState.Sound.new
  · exact ⟨fun t => by rw [htls, hb.idle], by rw [hheap]; exact hb.sound⟩

/-! ### Profiling that stays on -/

/-- The tables are the ledger of the heap since the last reset. -/
structure Tracks (s : Sys Thread) : Prop where
  /-- The union of the shards has exactly the sampled blocks, with their sizes and the
  ids of their stacks. -/
  live : ∀ p id size, s.heap.Live p (id, size) ↔ ∃ b ips, s.blocks.get? p = some b ∧
    b.sample = some ips ∧ s.heap.lookup ips = some id ∧ b.size = size
  /-- No sampled block is left out for want of an id. -/
  named : ∀ p b ips, s.blocks.get? p = some b → b.sample = some ips →
    ∃ id, s.heap.lookup ips = some id
  /-- In-use counters count the live entries. -/
  inuse : s.heap.Exact
  /-- Allocation counters count the samples. -/
  allocs : s.heap.Counts s.samples
  /-- Stacks and callsite data describe each other. -/
  agree : s.heap.Agree

/-- What a run with profiling on keeps. -/
structure Profiled (s : Sys Thread) : Prop extends s.Base where
  on : s.statics.isProfiling = true
  ledger : Ledger s.heap s.blocks
  inuse : s.heap.Exact
  allocs : s.heap.Counts s.samples

omit [DecidableEq Thread] in
theorem Profiled.tracks (hs : s.Profiled) : s.Tracks where
  live := by
    intro p id size
    rw [HeapState.live_iff]
    constructor
    · exact fun hv => hs.ledger.live p _ hv
    · rintro ⟨b, ips, hb, hsample, hlook, rfl⟩
      obtain ⟨id', hlook', hlive⟩ := hs.ledger.complete p b ips hb hsample
      rw [hlook, Option.some.injEq] at hlook'
      rw [hlook', hlive]
  named := by
    intro p b ips hb hsample
    obtain ⟨id, hlook, -⟩ := hs.ledger.complete p b ips hb hsample
    exact ⟨id, hlook⟩
  inuse := hs.inuse
  allocs := hs.allocs
  agree := hs.sound.toAgree

omit [DecidableEq Thread] in
theorem Profiled.init (rate : ℕ) (bytesLeft : Thread → ℤ) (sizes : Table ℕ ℕ) :
    (init true rate bytesLeft sizes : Sys Thread).Profiled where
  toBase := Base.init true rate bytesLeft sizes
  on := rfl
  ledger := by
    refine Ledger.of_unsampled fun p b hb => ?_
    simp only [Sys.init, Table.get?_mapValues] at hb
    obtain ⟨size, -, rfl⟩ := Option.map_eq_some_iff.mp hb
    rfl
  inuse := HeapState.Exact.new
  allocs := HeapState.Counts.new

omit [DecidableEq Thread] in
/-- Nothing that the ledger is about has changed. -/
theorem Profiled.of_same (hs : s.Profiled) (hb : s'.Base) (hon : s'.statics.isProfiling = true)
    (hheap : s'.heap = s.heap) (hblocks : s'.blocks = s.blocks)
    (hsamples : s'.samples = s.samples) : s'.Profiled := by
  refine ⟨hb, hon, ?_, ?_, ?_⟩
  · rw [hheap, hblocks]
    exact hs.ledger
  · rw [hheap]
    exact hs.inuse
  · rw [hheap, hsamples]
    exact hs.allocs

theorem Profiled.afterAlloc (hs : s.Profiled) (t : Thread) {ptr : ℕ} (size : ℕ) (stack : List ℕ)
    (hfree : ptr = 0 ∨ s.blocks.get? ptr = none)
    (hb : (s.afterAlloc t ptr size stack).Base) : (s.afterAlloc t ptr size stack).Profiled := by
  have hon : (s.afterAlloc t ptr size stack).statics.isProfiling = true :=
    (s.statics.isProfiling_alloc (s.tls t) ptr size stack).trans hs.on
  by_cases hp : ptr = 0
  · -- null: the hook returns at once and no block appears
    have hno : s.statics.allocSamples (s.tls t) ptr size = false := by
      simp [Statics.allocSamples, hp]
    have hheap : (s.afterAlloc t ptr size stack).heap = s.heap := by
      rw [heap_afterAlloc, hno]
      rfl
    have hsamples : (s.afterAlloc t ptr size stack).samples = s.samples := by
      simp only [Sys.afterAlloc, hno]
      rfl
    exact hs.of_same hb hon hheap (if_pos hp) hsamples
  · have hnone : s.blocks.get? ptr = none := hfree.resolve_left hp
    have hblocks : (s.afterAlloc t ptr size stack).blocks = s.blocks.insert ptr
        ⟨size, sampleIf (s.statics.allocSamples (s.tls t) ptr size) stack⟩ := if_neg hp
    have hheap := s.heap_afterAlloc t ptr size stack
    cases hsam : s.statics.allocSamples (s.tls t) ptr size with
    | true =>
      rw [hsam, if_pos rfl] at hheap
      have hsamples : (s.afterAlloc t ptr size stack).samples =
          ⟨capture stack, size⟩ :: s.samples := by
        simp only [Sys.afterAlloc, hsam]
        rfl
      refine ⟨hb, hon, ?_, ?_, ?_⟩
      · rw [hheap, hblocks, hsam]
        exact hs.ledger.sample ptr size stack
      · rw [hheap]
        exact hs.inuse.recordSample hs.sound (hs.ledger.liveAt_of_free hnone) size stack
      · rw [hheap, hsamples]
        exact hs.allocs.recordSample hs.sound ptr size stack
    | false =>
      rw [hsam, if_neg Bool.false_ne_true] at hheap
      have hsamples : (s.afterAlloc t ptr size stack).samples = s.samples := by
        simp only [Sys.afterAlloc, hsam]
        rfl
      refine ⟨hb, hon, ?_, ?_, ?_⟩
      · rw [hheap, hblocks, hsam]
        exact hs.ledger.skip hnone size
      · rw [hheap]
        exact hs.inuse
      · rw [hheap, hsamples]
        exact hs.allocs

theorem Profiled.afterDealloc (hs : s.Profiled) (t : Thread) (ptr size : ℕ)
    (hb : (s.afterDealloc t ptr size).Base) : (s.afterDealloc t ptr size).Profiled := by
  have hheap : (s.afterDealloc t ptr size).heap = s.heap.recordDealloc ptr size := by
    rw [heap_afterDealloc, hs.on, hs.idle t]
    rfl
  refine ⟨hb, (s.statics.isProfiling_dealloc (s.tls t) ptr size).trans hs.on, ?_, ?_, ?_⟩
  · rw [hheap]
    exact hs.ledger.free ptr size
  · rw [hheap]
    exact hs.inuse.recordDealloc ptr size
  · rw [hheap]
    exact hs.allocs.recordDealloc ptr size

theorem Profiled.afterRealloc (hs : s.Profiled) (t : Thread) {ptr newPtr : ℕ} (size newSize : ℕ)
    (stack : List ℕ) (hfree : newPtr = 0 ∨ newPtr = ptr ∨ s.blocks.get? newPtr = none)
    (hb : (s.afterRealloc t ptr size newPtr newSize stack).Base) :
    (s.afterRealloc t ptr size newPtr newSize stack).Profiled := by
  have hon : (s.afterRealloc t ptr size newPtr newSize stack).statics.isProfiling = true :=
    (s.statics.isProfiling_realloc (s.tls t) ptr size newPtr newSize stack).trans hs.on
  by_cases hp : newPtr = 0
  · -- null: the block stays where it was, with its entry
    have hno : s.statics.reallocSamples (s.tls t) newPtr = false := by
      simp [Statics.reallocSamples, hp]
    have hheap : (s.afterRealloc t ptr size newPtr newSize stack).heap = s.heap := by
      rw [heap_afterRealloc, hno]
      rfl
    have hsamples : (s.afterRealloc t ptr size newPtr newSize stack).samples = s.samples := by
      simp only [Sys.afterRealloc, hno]
      rfl
    exact hs.of_same hb hon hheap (if_pos hp) hsamples
  · have hsam : s.statics.reallocSamples (s.tls t) newPtr = true := by
      simp [Statics.reallocSamples, hp, hs.on, hs.idle t]
    have hheap : (s.afterRealloc t ptr size newPtr newSize stack).heap =
        (s.heap.recordDealloc ptr size).recordSample newPtr newSize stack := by
      rw [heap_afterRealloc, hsam]
      rfl
    have hblocks : (s.afterRealloc t ptr size newPtr newSize stack).blocks =
        (s.blocks.erase ptr).insert newPtr ⟨newSize, some (capture stack)⟩ := by
      simp only [Sys.afterRealloc, if_neg hp, hsam]
      rfl
    have hsamples : (s.afterRealloc t ptr size newPtr newSize stack).samples =
        ⟨capture stack, newSize⟩ :: s.samples := by
      simp only [Sys.afterRealloc, hsam]
      rfl
    -- the old entry is out before the new one goes in, so the new address is free
    have hnone : (s.heap.recordDealloc ptr size).liveAt newPtr = none := by
      rw [HeapState.liveAt_recordDealloc]
      split
      · rfl
      · next hne =>
        exact hs.ledger.liveAt_of_free ((hfree.resolve_left hp).resolve_left (Ne.symm hne))
    refine ⟨hb, hon, ?_, ?_, ?_⟩
    · rw [hheap, hblocks]
      exact (hs.ledger.free ptr size).sample newPtr newSize stack
    · rw [hheap]
      exact (hs.inuse.recordDealloc ptr size).recordSample (hs.sound.recordDealloc ptr size)
        hnone newSize stack
    · rw [hheap, hsamples]
      exact (hs.allocs.recordDealloc ptr size).recordSample (hs.sound.recordDealloc ptr size)
        newPtr newSize stack

omit [DecidableEq Thread] in
theorem Profiled.reset (hs : s.Profiled) : Profiled { s with
    statics := s.statics.reset
    blocks := s.blocks.mapValues fun b => { b with sample := none }
    samples := [] } := by
  have hheap : s.statics.reset.heap = HeapState.new := s.heap.reset_eq_new
  refine ⟨⟨hs.idle, ?_⟩, hs.on, ?_, ?_, ?_⟩
  · rw [heap, hheap]
    exact HeapState.Sound.new
  · rw [heap, hheap]
    refine Ledger.of_unsampled fun p b hb => ?_
    rw [Table.get?_mapValues] at hb
    obtain ⟨b₀, -, rfl⟩ := Option.map_eq_some_iff.mp hb
    rfl
  · rw [heap, hheap]
    exact HeapState.Exact.new
  · rw [heap, hheap]
    exact HeapState.Counts.new

/-- **Every operation but `stop` keeps the ledger.** -/
theorem Profiled.step (hs : s.Profiled) (hop : op ≠ .stop) (h : s.step op = some s') :
    s'.Profiled := by
  have hb := hs.toBase.step h
  rcases step_heap h with ⟨t, ptr, size, stack, -, hfree, rfl⟩ | ⟨t, ptr, b, -, -, rfl⟩ |
    ⟨t, ptr, b, newPtr, newSize, stack, -, -, hfree, rfl⟩ | ⟨-, rfl⟩ |
    ⟨-, hheap, -, hblocks, hsamples, hon⟩
  · exact hs.afterAlloc t size stack hfree hb
  · exact hs.afterDealloc t ptr b.size hb
  · exact hs.afterRealloc t b.size newSize stack hfree hb
  · exact hs.reset
  · exact hs.of_same hb (hon hop hs.on) hheap hblocks hsamples

/-- **The tables track the heap.**  From empty tables with profiling on, after any run
of allocations, frees, reallocations and resets by any threads, the live entries are
exactly the blocks sampled since the last reset, and every counter is the count it
stands for. -/
theorem tracks_of_reach (rate : ℕ) (bytesLeft : Thread → ℤ) (sizes : Table ℕ ℕ)
    (h : Machine.Reach step (fun _ op => op ≠ .stop) (init true rate bytesLeft sizes) s) :
    s.Tracks :=
  (h.invariant (Profiled.init rate bytesLeft sizes) fun _ _ _ hs hop hst =>
    hs.step hop hst).tracks

/-- A sampled allocation that grows and moves, and one that is freed again. -/
def movedOps : List (Op Unit) :=
  [.alloc () 4096 1024 [7, 8], .realloc () 4096 8192 2048 [9], .alloc () 4096 16 [7, 8],
    .dealloc () 4096]

theorem tracks_of_reach_moved :
    ∃ s, Machine.run step (init true 512 (fun _ => 0) Table.empty) movedOps = some s ∧
      s.Tracks := by
  obtain ⟨s, hs⟩ : ∃ s, Machine.run step (init true 512 (fun _ => 0) Table.empty) movedOps =
      some s := Option.isSome_iff_exists.mp (by decide +kernel)
  exact ⟨s, hs, tracks_of_reach 512 (fun _ => 0) Table.empty
    (Machine.Reach.of_run (fun _ => by decide) hs)⟩

/-! ### Profiling that pauses -/

/-- The operation records a sample at an address that already has an entry: one left
behind by a block freed or moved away while profiling was stopped. -/
def StaleHit (s : Sys Thread) : Op Thread → Prop
  | .alloc t ptr size _ =>
    s.statics.allocSamples (s.tls t) ptr size = true ∧ s.heap.liveAt ptr ≠ none
  | .realloc t ptr newPtr _ _ =>
    s.statics.reallocSamples (s.tls t) newPtr = true ∧ newPtr ≠ ptr ∧
      s.heap.liveAt newPtr ≠ none
  | _ => False

/-- **One operation keeps the in-use counters exact exactly when it is no stale hit.** -/
theorem exact_step_iff (hb : s.Base) (he : s.heap.Exact) (h : s.step op = some s') :
    s'.heap.Exact ↔ ¬s.StaleHit op := by
  rcases step_heap h with ⟨t, ptr, size, stack, rfl, -, rfl⟩ | ⟨t, ptr, b, rfl, -, rfl⟩ |
    ⟨t, ptr, b, newPtr, newSize, stack, rfl, -, -, rfl⟩ | ⟨rfl, rfl⟩ | ⟨hop, hheap, -⟩
  · rw [heap_afterAlloc]
    cases hsam : s.statics.allocSamples (s.tls t) ptr size with
    | true =>
      rw [if_pos rfl, HeapState.exact_recordSample_iff hb.sound he]
      simp [StaleHit, hsam]
    | false =>
      rw [if_neg Bool.false_ne_true]
      simp [StaleHit, hsam, he]
  · -- a free settles the counters of the entry it removes
    rw [heap_afterDealloc]
    refine iff_of_true ?_ id
    split
    · exact he.recordDealloc ptr b.size
    · exact he
  · rw [heap_afterRealloc]
    cases hsam : s.statics.reallocSamples (s.tls t) newPtr with
    | true =>
      rw [if_pos rfl, HeapState.exact_recordSample_iff (hb.sound.recordDealloc ptr b.size)
        (he.recordDealloc ptr b.size), HeapState.liveAt_recordDealloc]
      by_cases hp : ptr = newPtr
      · -- in place: its own entry is out before the sample
        simp [StaleHit, hp]
      · rw [if_neg hp]
        simp [StaleHit, hsam, Ne.symm hp]
    | false =>
      rw [if_neg Bool.false_ne_true]
      simp [StaleHit, hsam, he]
  · refine iff_of_true ?_ id
    show s.heap.reset.Exact
    rw [HeapState.reset_eq_new]
    exact HeapState.Exact.new
  · rw [hheap]
    refine iff_of_true he ?_
    rcases hop with rfl | rfl | ⟨r, rfl⟩ <;> exact id

/-- **With pauses, the in-use counters are exact all along a run exactly when no
sample of the run lands on an entry left behind.** -/
theorem exactAlong_iff (on : Bool) (rate : ℕ) (bytesLeft : Thread → ℤ) (sizes : Table ℕ ℕ)
    (ops : List (Op Thread)) :
    Machine.Always step (fun s => s.heap.Exact) (init on rate bytesLeft sizes) ops ↔
      Machine.Throughout step (fun s op => ¬s.StaleHit op) (init on rate bytesLeft sizes) ops :=
  Machine.always_iff_throughout (I := Base) (fun _ _ _ hb h => hb.step h)
    (fun _ _ _ hb he h => exact_step_iff hb he h) ops _
    (Base.init on rate bytesLeft sizes) HeapState.Exact.new

/-- A sampled block freed during a pause, and its address sampled again after it. -/
def pausedOps : List (Op Unit) :=
  [.start, .alloc () 4096 1024 [7, 8], .stop, .dealloc () 4096, .start,
    .alloc () 4096 1024 [7, 8]]

/-- After the pause the callsite counts two objects in use; one entry is left. -/
theorem pausedOps_inexact :
    ∃ s, Machine.run step (init false 512 (fun _ => 0) Table.empty) pausedOps = some s ∧
      ¬s.heap.Exact := by
  have hrun : (Machine.run step (init false 512 (fun _ => 0) Table.empty) pausedOps).map
      (fun s => (s.heap.callsites.get? 1, s.heap.liveObjects 1)) =
        some (some ⟨[7, 8], 2, 2048, 2, 2048⟩, 1) := by decide +kernel
  obtain ⟨s, hs, hobs⟩ := Option.map_eq_some_iff.mp hrun
  rw [Prod.mk.injEq] at hobs
  refine ⟨s, hs, fun hexact => ?_⟩
  have hcount := (hexact 1 _ hobs.1).1
  rw [hobs.2] at hcount
  exact absurd hcount (by decide)

end Sys

end Rpprof
