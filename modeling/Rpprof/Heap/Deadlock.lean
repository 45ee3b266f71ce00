import Rpprof.Heap.Hooks
import Rpprof.Lib.Locks

/-!
# The locks of the heap profiler

What one thread asks of the locks of `HeapState` while it runs an allocator hook,
`reset` or `heap_report`, including the calls that the body of the function makes
back into the hooks: every `Vec`, `HashMap` or symbol it touches may allocate.
Where a body may allocate, the calls made there are an argument.

## Main definitions

* `Lock` — the shard mutexes and the two reader-writer locks.
* `Call` — a call of a hook, with the calls its own body makes.
* `EntryPoint` — what a thread enters from outside.
* `sampledStacks` — the stacks of those calls of a list that will be sampled.

## Main results

* `Call.run_of_inAlloc` — with the flag set, a nested call does nothing.
* `Call.run_eq`, `EntryPoint.heap_run_reset` — with their nested calls, the functions do to
  the tables what they do without.
* `EntryPoint.clean_run_iff` — no function waits for itself, but for `heap_report` when a
  nested call is sampled on a new stack.
-/

namespace Rpprof

open HeapState (capture)
open Locks

/-- The locks of `HeapState`. -/
inductive Lock where
  | shard (i : Fin numShards)
  | callsiteMap
  | callsites
deriving DecidableEq, Repr

/-- The lock requests and releases of a thread. -/
abbrev Trace := List (Act Lock)

/-- What a running thread reads and writes. -/
structure Ctx where
  statics : Statics
  tls : Tls

namespace Ctx

/-- The tables. -/
abbrev heap (c : Ctx) : HeapState := c.statics.heap

/-- Change the tables. -/
def setHeap (c : Ctx) (h : HeapState) : Ctx := { c with statics := { c.statics with heap := h } }

/-- Set or clear `IN_ALLOC`. -/
def setInAlloc (c : Ctx) (b : Bool) : Ctx := { c with tls := { c.tls with inAlloc := b } }

/-- Set `BYTES_LEFT`. -/
def setBytesLeft (c : Ctx) (n : ℤ) : Ctx := { c with tls := { c.tls with bytesLeft := n } }

@[simp] theorem setHeap_setHeap (c : Ctx) (h h' : HeapState) :
    (c.setHeap h).setHeap h' = c.setHeap h' := rfl

@[simp] theorem heap_setHeap (c : Ctx) (h : HeapState) : (c.setHeap h).statics.heap = h := rfl

end Ctx

/-- Where the body of a function may call back into the hooks. -/
inductive Point where
  /-- `ips` grows while the stack is walked. -/
  | capturing
  /-- The key is cloned and the stack map makes room, under its write lock. -/
  | naming
  /-- The callsite table makes room, under both write locks. -/
  | inserting
  /-- A shard makes room, under its mutex. -/
  | recording
deriving DecidableEq, Repr

/-- A call of a hook, with what the inner allocator answers, and the calls that its
body makes back into the hooks. -/
inductive Call where
  | alloc (ptr size : ℕ) (stack : List ℕ) (inside : Point → List Call)
  | dealloc (ptr size : ℕ) (inside : Point → List Call)
  | realloc (ptr size newPtr newSize : ℕ) (stack : List ℕ) (inside : Point → List Call)

/-- The nested calls at a point, as what they do. -/
abbrev Nested := Point → Ctx → Ctx × Trace

/-! ### The bodies with their locks -/

/-- `record_sample` with its locks and nested calls. -/
def recordSampleWith (nested : Nested) (ptr size : ℕ) (stack : List ℕ) (c : Ctx) : Ctx × Trace :=
  let (c, t₀) := nested .capturing c
  let ips := capture stack
  let (id, c, t₁) :=
    match c.heap.lookup ips with
    | some id => (id, c, critical Lock.callsiteMap .shared [])
    | none =>
      -- the read guard is dropped before the write lock is asked for
      let (c, u₀) := nested .naming c
      match c.heap.lookup ips with
      | some id =>
        (id, c, critical Lock.callsiteMap .shared [] ++ critical Lock.callsiteMap .exclusive u₀)
      | none =>
        let id := c.heap.drawId.1
        let c := c.setHeap c.heap.drawId.2
        let (c, u₁) := nested .inserting c
        let c := c.setHeap ((c.heap.insertCallsite id ips).bindStack ips id)
        (id, c, critical Lock.callsiteMap .shared [] ++
          critical Lock.callsiteMap .exclusive (u₀ ++ critical Lock.callsites .exclusive u₁))
  let c := c.setHeap (c.heap.updateCallsite id (CallsiteData.sampled size))
  let (c, t₂) := nested .recording c
  (c.setHeap (c.heap.insertLive ptr id size),
    t₀ ++ t₁ ++ critical Lock.callsites .shared [] ++
      critical (Lock.shard (shardIdx ptr)) .exclusive t₂)

/-- `record_dealloc` with its locks; its body allocates nothing. -/
def recordDeallocWith (ptr : ℕ) (c : Ctx) : Ctx × Trace :=
  match c.heap.removeLive ptr with
  | (some (id, allocSize), h) =>
    (c.setHeap (h.updateCallsite id (CallsiteData.freed allocSize)),
      critical (Lock.shard (shardIdx ptr)) .exclusive [] ++ critical Lock.callsites .shared [])
  | (none, h) => (c.setHeap h, critical (Lock.shard (shardIdx ptr)) .exclusive [])

/-- `AllocProfiler::alloc` with its locks and nested calls. -/
def allocWith (nested : Nested) (ptr size : ℕ) (stack : List ℕ) (c : Ctx) : Ctx × Trace :=
  if ptr = 0 ∨ c.statics.isProfiling = false then (c, [])
  else if c.tls.inAlloc then (c, [])
  else if c.tls.remaining size ≤ 0 then
    let c := c.setInAlloc true
    let c := c.setBytesLeft (asIsize c.statics.sampleRate)
    let (c, t) := recordSampleWith nested ptr size stack c
    (c.setInAlloc false, t)
  else (c.setBytesLeft (c.tls.remaining size), [])

/-- `AllocProfiler::dealloc` with its locks. -/
def deallocWith (ptr : ℕ) (c : Ctx) : Ctx × Trace :=
  if c.statics.isProfiling then
    if !c.tls.inAlloc then
      let c := c.setInAlloc true
      let (c, t) := recordDeallocWith ptr c
      (c.setInAlloc false, t)
    else (c, [])
  else (c, [])

/-- `AllocProfiler::realloc` with its locks and nested calls. -/
def reallocWith (nested : Nested) (ptr newPtr newSize : ℕ) (stack : List ℕ) (c : Ctx) :
    Ctx × Trace :=
  if newPtr = 0 ∨ c.statics.isProfiling = false then (c, [])
  else if !c.tls.inAlloc then
    let c := c.setInAlloc true
    let (c, t₁) := recordDeallocWith ptr c
    let (c, t₂) := recordSampleWith nested newPtr newSize stack c
    (c.setInAlloc false, t₁ ++ t₂)
  else (c, [])

mutual

/-- A hook and the calls inside it. -/
def Call.run : Call → Ctx → Ctx × Trace
  | .alloc ptr size stack inside, c => allocWith (fun p => runAll (inside p)) ptr size stack c
  | .dealloc ptr _ _, c => deallocWith ptr c
  | .realloc ptr _ newPtr newSize stack inside, c =>
    reallocWith (fun p => runAll (inside p)) ptr newPtr newSize stack c

/-- Calls one after another. -/
def runAll : List Call → Ctx → Ctx × Trace
  | [], c => (c, [])
  | k :: ks, c => ((runAll ks (k.run c).1).1, (k.run c).2 ++ (runAll ks (k.run c).1).2)

end

/-- Each shard cleared under its mutex; nothing is freed. -/
def clearShardsWith : List (Fin numShards) → Ctx → Ctx × Trace
  | [], c => (c, [])
  | i :: is, c =>
    ((clearShardsWith is (c.setHeap (c.heap.clearShard i))).1,
      critical (Lock.shard i) .exclusive [] ++
        (clearShardsWith is (c.setHeap (c.heap.clearShard i))).2)

/-- The frees of the given addresses and sizes. -/
def freeAll (drops : List (ℕ × ℕ)) : List Call :=
  drops.map fun d => .dealloc d.1 d.2 fun _ => []

/-- `reset` with its locks.  Clearing the two maps frees the stacks they hold: `keys`
and `sites` are where those were. -/
def resetWith (keys sites : List (ℕ × ℕ)) (c : Ctx) : Ctx × Trace :=
  let (c, t) := clearShardsWith (List.finRange numShards) c
  let (c, u₁) := runAll (freeAll keys) c
  let c := c.setHeap c.heap.clearMap
  let (c, u₂) := runAll (freeAll sites) c
  let c := c.setHeap c.heap.clearCallsites
  (c.setHeap c.heap.storeNextId,
    t ++ (critical Lock.callsiteMap .exclusive u₁ ++ critical Lock.callsites .exclusive u₂))

/-- `heap_report` with its lock: the callsites stay read-locked while every frame is
resolved and every record built, whatever `during` that allocates. -/
def heapReportWith (during : List Call) (c : Ctx) : Ctx × Trace :=
  ((runAll during c).1, critical Lock.callsites .shared (runAll during c).2)

/-- What a thread enters the profiler by. -/
inductive EntryPoint where
  | call (k : Call)
  | reset (keys sites : List (ℕ × ℕ))
  | heapReport (during : List Call)

/-- Run it from beginning to end. -/
def EntryPoint.run : EntryPoint → Ctx → Ctx × Trace
  | .call k, c => k.run c
  | .reset keys sites, c => resetWith keys sites c
  | .heapReport during, c => heapReportWith during c

/-! ### Under the flag nothing happens -/

/-- **With `IN_ALLOC` set, a nested call touches neither tables nor locks**, and makes
no calls of its own. -/
theorem Call.run_of_inAlloc {c : Ctx} (h : c.tls.inAlloc = true) (k : Call) :
    k.run c = (c, []) := by
  cases k with
  | alloc ptr size stack inside =>
    rw [Call.run, allocWith, if_pos h, ite_self]
  | dealloc ptr size inside =>
    rw [Call.run, deallocWith]
    simp only [h, Bool.not_true, Bool.false_eq_true, if_false, ite_self]
  | realloc ptr size newPtr newSize stack inside =>
    rw [Call.run, reallocWith]
    simp only [h, Bool.not_true, Bool.false_eq_true, if_false, ite_self]

theorem runAll_of_inAlloc {c : Ctx} (h : c.tls.inAlloc = true) (ks : List Call) :
    runAll ks c = (c, []) := by
  induction ks with
  | nil => rfl
  | cons k ks ih =>
    rw [runAll, Call.run_of_inAlloc h, ih]
    rfl

/-- The locks of finding or creating the id of a stack. -/
def nameTrace (h : HeapState) (ips : List ℕ) : Trace :=
  match h.lookup ips with
  | some _ => critical Lock.callsiteMap .shared []
  | none => critical Lock.callsiteMap .shared [] ++
      critical Lock.callsiteMap .exclusive (critical Lock.callsites .exclusive [])

/-- The locks of `record_sample`. -/
def sampleTrace (h : HeapState) (ptr : ℕ) (stack : List ℕ) : Trace :=
  nameTrace h (capture stack) ++
    (critical Lock.callsites .shared [] ++ critical (Lock.shard (shardIdx ptr)) .exclusive [])

/-- The locks of `record_dealloc`. -/
def freeTrace (h : HeapState) (ptr : ℕ) : Trace :=
  critical (Lock.shard (shardIdx ptr)) .exclusive [] ++
    match h.liveAt ptr with
    | some _ => critical Lock.callsites .shared []
    | none => []

/-- With the flag set, the nested calls of `record_sample` leave no trace. -/
theorem recordSampleWith_eq (inside : Point → List Call) (ptr size : ℕ) (stack : List ℕ) {c : Ctx}
    (h : c.tls.inAlloc = true) :
    recordSampleWith (fun p => runAll (inside p)) ptr size stack c =
      (c.setHeap (c.heap.recordSample ptr size stack), sampleTrace c.heap ptr stack) := by
  have hq : ∀ p, runAll (inside p) c = (c, []) := fun p => runAll_of_inAlloc h (inside p)
  have hquiet : ∀ (p : Point) (h' : HeapState), runAll (inside p) (c.setHeap h') =
      (c.setHeap h', []) := by
    intro p h'
    exact runAll_of_inAlloc (c := c.setHeap h') h (inside p)
  unfold recordSampleWith sampleTrace nameTrace
  simp only [hq]
  rw [HeapState.recordSample_eq]
  cases hl : c.heap.lookup (capture stack) with
  | some id =>
    simp only [hquiet, HeapState.callsiteId_of_some hl, List.nil_append, List.append_assoc]
    rfl
  | none =>
    simp only [hquiet, HeapState.callsiteId_of_none hl, List.nil_append, List.append_assoc,
      Ctx.setHeap_setHeap]
    rfl

theorem recordDeallocWith_eq (ptr size : ℕ) (c : Ctx) :
    recordDeallocWith ptr c =
      (c.setHeap (c.heap.recordDealloc ptr size), freeTrace c.heap ptr) := by
  unfold recordDeallocWith freeTrace HeapState.recordDealloc HeapState.removeLive
  cases c.heap.liveAt ptr with
  | some v => rfl
  | none => simp only [List.append_nil]

namespace Call

/-- What a hook does to the statics and the thread's locals. -/
def effect (g : Statics) (l : Tls) : Call → Statics × Tls
  | .alloc ptr size stack _ => g.alloc l ptr size stack
  | .dealloc ptr size _ => g.dealloc l ptr size
  | .realloc ptr size newPtr newSize stack _ => g.realloc l ptr size newPtr newSize stack

/-- The stack a call is sampled on, if it is. -/
def sampledOn (g : Statics) (l : Tls) : Call → Option (List ℕ)
  | .alloc ptr size stack _ => if g.allocSamples l ptr size then some (capture stack) else none
  | .dealloc _ _ _ => none
  | .realloc _ _ newPtr _ stack _ =>
    if g.reallocSamples l newPtr then some (capture stack) else none

/-- The locks of a call. -/
def trace (g : Statics) (l : Tls) : Call → Trace
  | .alloc ptr size stack _ =>
    if g.allocSamples l ptr size then sampleTrace g.heap ptr stack else []
  | .dealloc ptr _ _ => if g.isProfiling && !l.inAlloc then freeTrace g.heap ptr else []
  | .realloc ptr size newPtr _ stack _ =>
    if g.reallocSamples l newPtr then
      freeTrace g.heap ptr ++ sampleTrace (g.heap.recordDealloc ptr size) newPtr stack
    else []

/-- The result of a hook as a context. -/
def toCtx (r : Statics × Tls) : Ctx := ⟨r.1, r.2⟩

theorem allocWith_eq (inside : Point → List Call) (ptr size : ℕ) (stack : List ℕ) (g : Statics)
    (l : Tls) : allocWith (fun p => runAll (inside p)) ptr size stack ⟨g, l⟩ =
      (toCtx (g.alloc l ptr size stack),
        if g.allocSamples l ptr size then sampleTrace g.heap ptr stack else []) := by
  unfold allocWith Statics.alloc Statics.allocSamples Tls.spends toCtx
  obtain ⟨on, rate, h⟩ := g
  obtain ⟨flag, left⟩ := l
  by_cases hp : ptr = 0
  · simp [hp]
  cases on with
  | false => simp
  | true =>
    cases flag with
    | true => simp [hp]
    | false =>
      by_cases hrem : Tls.remaining ⟨false, left⟩ size ≤ 0
      · simp [hp, hrem, recordSampleWith_eq, Ctx.setInAlloc, Ctx.setBytesLeft, Ctx.setHeap,
          Ctx.heap]
      · simp [hp, hrem, Ctx.setBytesLeft]

theorem deallocWith_eq (ptr size : ℕ) (g : Statics) (l : Tls) : deallocWith ptr ⟨g, l⟩ =
    (toCtx (g.dealloc l ptr size),
      if g.isProfiling && !l.inAlloc then freeTrace g.heap ptr else []) := by
  unfold deallocWith Statics.dealloc toCtx
  obtain ⟨on, rate, h⟩ := g
  obtain ⟨flag, left⟩ := l
  cases on with
  | false => simp
  | true =>
    cases flag with
    | true => simp
    | false => simp [recordDeallocWith_eq ptr size, Ctx.setInAlloc, Ctx.setHeap, Ctx.heap]

theorem reallocWith_eq (inside : Point → List Call) (ptr size newPtr newSize : ℕ)
    (stack : List ℕ) (g : Statics) (l : Tls) :
    reallocWith (fun p => runAll (inside p)) ptr newPtr newSize stack ⟨g, l⟩ =
      (toCtx (g.realloc l ptr size newPtr newSize stack),
        if g.reallocSamples l newPtr then
          freeTrace g.heap ptr ++ sampleTrace (g.heap.recordDealloc ptr size) newPtr stack
        else []) := by
  unfold reallocWith Statics.realloc Statics.reallocSamples toCtx
  obtain ⟨on, rate, h⟩ := g
  obtain ⟨flag, left⟩ := l
  by_cases hp : newPtr = 0
  · simp [hp]
  cases on with
  | false => simp
  | true =>
    cases flag with
    | true => simp
    | false =>
      simp [hp, recordDeallocWith_eq ptr size, recordSampleWith_eq, Ctx.setInAlloc, Ctx.setHeap,
        Ctx.heap]

/-- **With all its nested calls a hook does what it does without them.** -/
theorem run_eq (k : Call) (c : Ctx) :
    k.run c = (toCtx (k.effect c.statics c.tls), k.trace c.statics c.tls) := by
  cases k with
  | alloc ptr size stack inside =>
    rw [Call.run]
    exact allocWith_eq inside ptr size stack c.statics c.tls
  | dealloc ptr size inside =>
    rw [Call.run]
    exact deallocWith_eq ptr size c.statics c.tls
  | realloc ptr size newPtr newSize stack inside =>
    rw [Call.run]
    exact reallocWith_eq inside ptr size newPtr newSize stack c.statics c.tls

end Call

/-! ### Which traces are clean -/

theorem balanced_nameTrace (h : HeapState) (ips : List ℕ) : Balanced (nameTrace h ips) := by
  unfold nameTrace
  cases h.lookup ips with
  | some id => exact balanced_nil.critical _ _
  | none => exact (balanced_nil.critical _ _).append ((balanced_nil.critical _ _).critical _ _)

theorem balanced_sampleTrace (h : HeapState) (ptr : ℕ) (stack : List ℕ) :
    Balanced (sampleTrace h ptr stack) :=
  (balanced_nameTrace h _).append ((balanced_nil.critical _ _).append (balanced_nil.critical _ _))

theorem balanced_freeTrace (h : HeapState) (ptr : ℕ) : Balanced (freeTrace h ptr) := by
  refine (balanced_nil.critical _ _).append ?_
  cases h.liveAt ptr with
  | some v => exact balanced_nil.critical _ _
  | none => exact balanced_nil

theorem Call.balanced_trace (g : Statics) (l : Tls) (k : Call) : Balanced (k.trace g l) := by
  cases k with
  | alloc ptr size stack inside =>
    rw [trace]
    split
    · exact balanced_sampleTrace _ _ _
    · exact balanced_nil
  | dealloc ptr size inside =>
    rw [trace]
    split
    · exact balanced_freeTrace _ _
    · exact balanced_nil
  | realloc ptr size newPtr newSize stack inside =>
    rw [trace]
    split
    · exact (balanced_freeTrace _ _).append (balanced_sampleTrace _ _ _)
    · exact balanced_nil

/-- With no lock held, a sample is clean: the read guard of the stack map is gone
before its write lock is asked for. -/
theorem clean_sampleTrace (h : HeapState) (ptr : ℕ) (stack : List ℕ) :
    Clean [] (sampleTrace h ptr stack) := by
  unfold sampleTrace
  rw [clean_append_of_balanced (balanced_nameTrace h _),
    clean_append_of_balanced (balanced_nil.critical _ _), clean_critical, clean_critical]
  refine ⟨?_, ⟨rfl, trivial⟩, rfl, trivial⟩
  unfold nameTrace
  cases h.lookup (capture stack) with
  | some id => exact (clean_critical _ _ _).mpr ⟨rfl, trivial⟩
  | none =>
    rw [clean_append_of_balanced (balanced_nil.critical _ _)]
    simp only [clean_critical]
    exact ⟨⟨rfl, trivial⟩, rfl, rfl, trivial⟩

/-- **Under the report's read lock a sample is clean exactly when its stack has an id
already.**  A new stack writes the callsites, and waits for its own reader. -/
theorem clean_sampleTrace_report (h : HeapState) (ptr : ℕ) (stack : List ℕ) :
    Clean [(Lock.callsites, .shared)] (sampleTrace h ptr stack) ↔
      h.lookup (capture stack) ≠ none := by
  unfold sampleTrace
  rw [clean_append_of_balanced (balanced_nameTrace h _)]
  unfold nameTrace
  cases h.lookup (capture stack) with
  | some id =>
    rw [clean_append_of_balanced (balanced_nil.critical _ _)]
    simp only [clean_critical]
    exact iff_of_true ⟨⟨rfl, trivial⟩, ⟨rfl, trivial⟩, rfl, trivial⟩ (Option.some_ne_none id)
  | none =>
    rw [clean_append_of_balanced (balanced_nil.critical _ _)]
    simp only [clean_critical]
    refine iff_of_false (fun hclean => ?_) (fun hne => hne rfl)
    -- the inner request: callsites, exclusively, with callsites held shared
    exact absurd hclean.1.2.2.1 (by decide)

/-- A free only reads the callsites, so it is clean under any lock but the shards'. -/
theorem clean_freeTrace {held : List (Lock × Mode)} (h : HeapState) (ptr : ℕ)
    (hshard : ∀ i, conflicts held (Lock.shard i) .exclusive = false)
    (hsites : h.liveAt ptr = none ∨ conflicts held Lock.callsites .shared = false) :
    Clean held (freeTrace h ptr) := by
  unfold freeTrace
  rw [clean_append_of_balanced (balanced_nil.critical _ _), clean_critical]
  refine ⟨⟨hshard _, trivial⟩, ?_⟩
  cases hl : h.liveAt ptr with
  | none => trivial
  | some v =>
    rw [hl] at hsites
    exact (clean_critical _ _ _).mpr ⟨hsites.resolve_left (Option.some_ne_none v), trivial⟩

namespace Call

theorem clean_trace (g : Statics) (l : Tls) (k : Call) : Clean [] (k.trace g l) := by
  cases k with
  | alloc ptr size stack inside =>
    rw [trace]
    split
    · exact clean_sampleTrace _ _ _
    · trivial
  | dealloc ptr size inside =>
    rw [trace]
    split
    · exact clean_freeTrace _ _ (fun _ => rfl) (Or.inr rfl)
    · trivial
  | realloc ptr size newPtr newSize stack inside =>
    rw [trace]
    split
    · rw [clean_append_of_balanced (balanced_freeTrace _ _)]
      exact ⟨clean_freeTrace _ _ (fun _ => rfl) (Or.inr rfl), clean_sampleTrace _ _ _⟩
    · trivial

theorem clean_trace_report (g : Statics) (l : Tls) (k : Call) :
    Clean [(Lock.callsites, .shared)] (k.trace g l) ↔
      ∀ ips ∈ k.sampledOn g l, g.heap.lookup ips ≠ none := by
  cases k with
  | alloc ptr size stack inside =>
    rw [trace, sampledOn]
    split
    · rw [clean_sampleTrace_report]
      simp
    · simp [Clean]
  | dealloc ptr size inside =>
    rw [trace, sampledOn]
    refine iff_of_true ?_ (by simp)
    split
    · exact clean_freeTrace _ _ (fun _ => rfl) (Or.inr rfl)
    · trivial
  | realloc ptr size newPtr newSize stack inside =>
    rw [trace, sampledOn]
    split
    · rw [clean_append_of_balanced (balanced_freeTrace _ _), clean_sampleTrace_report]
      have hfree : Clean [(Lock.callsites, .shared)] (freeTrace g.heap ptr) :=
        clean_freeTrace _ _ (fun _ => rfl) (Or.inr rfl)
      simp [hfree]
    · simp [Clean]

/-- A sample on a known stack, and a free, leave the ids of all stacks as they were. -/
theorem lookup_effect {g : Statics} {l : Tls} {k : Call}
    (h : ∀ ips ∈ k.sampledOn g l, g.heap.lookup ips ≠ none) (a : List ℕ) :
    (k.effect g l).1.heap.lookup a = g.heap.lookup a := by
  have hsample : ∀ (h' : HeapState) (ptr size : ℕ) (stack : List ℕ),
      h'.lookup (capture stack) ≠ none →
      (h'.recordSample ptr size stack).lookup a = h'.lookup a := by
    intro h' ptr size stack hne
    obtain ⟨id, hid⟩ := Option.ne_none_iff_exists'.mp hne
    rw [HeapState.lookup_recordSample, HeapState.callsiteId_of_some hid]
    split
    · next heq => rw [← heq, hid]
    · rfl
  cases k with
  | alloc ptr size stack inside =>
    rw [sampledOn] at h
    rw [effect, Statics.heap_alloc]
    split
    · next hs =>
      rw [if_pos hs] at h
      exact hsample _ _ _ _ (h _ rfl)
    · rfl
  | dealloc ptr size inside =>
    rw [effect, Statics.heap_dealloc]
    split
    · exact HeapState.lookup_recordDealloc _ _ _ _
    · rfl
  | realloc ptr size newPtr newSize stack inside =>
    rw [sampledOn] at h
    rw [effect, Statics.heap_realloc]
    split
    · next hs =>
      rw [if_pos hs] at h
      rw [hsample _ _ _ _ (by rw [HeapState.lookup_recordDealloc]; exact h _ rfl),
        HeapState.lookup_recordDealloc]
    · rfl

theorem isProfiling_effect (g : Statics) (l : Tls) (k : Call) :
    (k.effect g l).1.isProfiling = g.isProfiling := by
  cases k <;> simp [effect]

theorem sampleRate_effect (g : Statics) (l : Tls) (k : Call) :
    (k.effect g l).1.sampleRate = g.sampleRate := by
  cases k <;> simp [effect]

/-- Whether a call is sampled, and the budget it leaves, do not depend on the tables. -/
theorem sampledOn_congr {g g' : Statics} (hon : g.isProfiling = g'.isProfiling) (l : Tls)
    (k : Call) : k.sampledOn g l = k.sampledOn g' l := by
  cases k <;> simp [sampledOn, Statics.allocSamples, Statics.reallocSamples, hon]

theorem effect_congr {g g' : Statics} (hon : g.isProfiling = g'.isProfiling)
    (hrate : g.sampleRate = g'.sampleRate) (l : Tls) (k : Call) :
    (k.effect g l).2 = (k.effect g' l).2 := by
  cases k with
  | alloc ptr size stack inside =>
    simp only [effect, Statics.alloc, hon, hrate]
    repeat' split
    all_goals rfl
  | dealloc ptr size inside =>
    simp only [effect, Statics.dealloc, hon]
    repeat' split
    all_goals rfl
  | realloc ptr size newPtr newSize stack inside =>
    simp only [effect, Statics.realloc, hon]
    repeat' split
    all_goals rfl

end Call

/-- The stacks of those calls of the list that will be sampled: the flag, the rate and
the bytes left decide it, and the sizes on the way. -/
def sampledStacks (g : Statics) : Tls → List Call → List (List ℕ)
  | _, [] => []
  | l, k :: ks => (k.sampledOn g l).toList ++ sampledStacks g (k.effect g l).2 ks

theorem sampledStacks_congr {g g' : Statics} (hon : g.isProfiling = g'.isProfiling)
    (hrate : g.sampleRate = g'.sampleRate) (l : Tls) (ks : List Call) :
    sampledStacks g l ks = sampledStacks g' l ks := by
  induction ks generalizing l with
  | nil => rfl
  | cons k ks ih =>
    rw [sampledStacks, sampledStacks, Call.sampledOn_congr hon, Call.effect_congr hon hrate, ih]

theorem runAll_cons (k : Call) (ks : List Call) (c : Ctx) : runAll (k :: ks) c =
    ((runAll ks (Call.toCtx (k.effect c.statics c.tls))).1,
      k.trace c.statics c.tls ++ (runAll ks (Call.toCtx (k.effect c.statics c.tls))).2) := by
  rw [runAll, Call.run_eq]

theorem balanced_runAll (ks : List Call) (c : Ctx) : Balanced (runAll ks c).2 := by
  induction ks generalizing c with
  | nil => exact balanced_nil
  | cons k ks ih =>
    rw [runAll_cons]
    exact (k.balanced_trace _ _).append (ih _)

/-- **Calls under the report's read lock are clean exactly when those that are sampled
have their stacks known.** -/
theorem clean_runAll_report (ks : List Call) (c : Ctx) :
    Clean [(Lock.callsites, .shared)] (runAll ks c).2 ↔
      ∀ ips ∈ sampledStacks c.statics c.tls ks, c.heap.lookup ips ≠ none := by
  induction ks generalizing c with
  | nil => exact iff_of_true trivial nofun
  | cons k ks ih =>
    rw [runAll_cons, clean_append_of_balanced (k.balanced_trace _ _), Call.clean_trace_report,
      sampledStacks, List.forall_mem_append]
    simp only [Option.mem_toList]
    refine and_congr_right fun hk => ?_
    -- so far every stack was known, so no id was created and the rest sees the same ids
    rw [ih]
    have hstacks : sampledStacks (k.effect c.statics c.tls).1 (k.effect c.statics c.tls).2 ks =
        sampledStacks c.statics (k.effect c.statics c.tls).2 ks :=
      sampledStacks_congr (k.isProfiling_effect _ _) (k.sampleRate_effect _ _) _ ks
    show (∀ ips ∈ sampledStacks (k.effect c.statics c.tls).1 (k.effect c.statics c.tls).2 ks,
      (k.effect c.statics c.tls).1.heap.lookup ips ≠ none) ↔ _
    rw [hstacks]
    simp only [Call.lookup_effect hk]

/-! ### Clearing everything -/

theorem clearShardsWith_eq (is : List (Fin numShards)) (c : Ctx) :
    (clearShardsWith is c).1 = c.setHeap (is.foldl HeapState.clearShard c.heap) ∧
      Balanced (clearShardsWith is c).2 ∧ Clean [] (clearShardsWith is c).2 := by
  induction is generalizing c with
  | nil => exact ⟨rfl, balanced_nil, trivial⟩
  | cons i is ih =>
    obtain ⟨hctx, hbal, hclean⟩ := ih (c.setHeap (c.heap.clearShard i))
    rw [clearShardsWith]
    refine ⟨hctx, (balanced_nil.critical _ _).append hbal, ?_⟩
    rw [clean_append_of_balanced (balanced_nil.critical _ _), clean_critical]
    exact ⟨⟨rfl, trivial⟩, hclean⟩

/-- With no live entry, a free changes nothing at all. -/
theorem Call.effect_dealloc_of_none {g : Statics} {ptr : ℕ} (h : g.heap.liveAt ptr = none)
    (l : Tls) (size : ℕ) (inside : Point → List Call) :
    (Call.dealloc ptr size inside).effect g l = (g, l) := by
  rw [effect, Statics.dealloc]
  obtain ⟨flag, left⟩ := l
  cases flag with
  | true => simp
  | false => simp [HeapState.recordDealloc_of_none h size]

/-- **Frees while the shards are empty** change nothing and are clean under any lock but
a shard's, the callsites' write lock included. -/
theorem runAll_freeAll {c : Ctx} (hempty : ∀ p, c.heap.liveAt p = none)
    {held : List (Lock × Mode)} (hshard : ∀ i, conflicts held (Lock.shard i) .exclusive = false)
    (drops : List (ℕ × ℕ)) :
    (runAll (freeAll drops) c).1 = c ∧ Clean held (runAll (freeAll drops) c).2 := by
  induction drops with
  | nil => exact ⟨rfl, trivial⟩
  | cons d drops ih =>
    have heffect : Call.toCtx ((Call.dealloc d.1 d.2 fun _ => []).effect c.statics c.tls) = c := by
      rw [Call.effect_dealloc_of_none (hempty d.1)]
      rfl
    rw [freeAll, List.map_cons, ← freeAll, runAll_cons, heffect,
      clean_append_of_balanced (Call.balanced_trace _ _ _)]
    refine ⟨ih.1, ?_, ih.2⟩
    rw [Call.trace]
    split
    · exact clean_freeTrace _ _ hshard (Or.inl (hempty d.1))
    · trivial

/-- `reset` with the frees that it makes: the tables it leaves, and its locks. -/
theorem resetWith_spec (keys sites : List (ℕ × ℕ)) (c : Ctx) :
    (resetWith keys sites c).1 = c.setHeap c.heap.reset ∧ Clean [] (resetWith keys sites c).2 := by
  obtain ⟨hctx, hbal, hclean⟩ := clearShardsWith_eq (List.finRange numShards) c
  obtain ⟨h₀, hh₀⟩ : ∃ h₀, h₀ = (List.finRange numShards).foldl HeapState.clearShard c.heap :=
    ⟨_, rfl⟩
  have hempty : ∀ p, h₀.liveAt p = none := by
    intro p
    rw [hh₀, HeapState.liveAt, HeapState.shards_foldl_clearShard, if_pos (List.mem_finRange _)]
    rfl
  obtain ⟨hkeys, hkeysClean⟩ : (runAll (freeAll keys) (c.setHeap h₀)).1 = c.setHeap h₀ ∧
      Clean [(Lock.callsiteMap, .exclusive)] (runAll (freeAll keys) (c.setHeap h₀)).2 :=
    runAll_freeAll hempty (fun _ => rfl) keys
  obtain ⟨hsites, hsitesClean⟩ :
      (runAll (freeAll sites) (c.setHeap h₀.clearMap)).1 = c.setHeap h₀.clearMap ∧
      Clean [(Lock.callsites, .exclusive)] (runAll (freeAll sites) (c.setHeap h₀.clearMap)).2 :=
    runAll_freeAll hempty (fun _ => rfl) sites
  have hreset : c.heap.reset = h₀.clearMap.clearCallsites.storeNextId := by
    rw [HeapState.reset, hh₀]
  rw [← hh₀] at hctx
  unfold resetWith
  simp only [hctx, hkeys, Ctx.setHeap_setHeap, Ctx.heap_setHeap, hsites, hreset, true_and]
  rw [clean_append_of_balanced hbal, clean_append_of_balanced ((balanced_runAll _ _).critical _ _),
    clean_critical, clean_critical]
  exact ⟨hclean, ⟨rfl, hkeysClean⟩, rfl, hsitesClean⟩

namespace EntryPoint

/-- **With the frees it makes on the way, `reset` does what it does without them.** -/
theorem heap_run_reset (keys sites : List (ℕ × ℕ)) (c : Ctx) :
    ((EntryPoint.reset keys sites).run c).1.heap = c.heap.reset := by
  rw [run, (resetWith_spec keys sites c).1]
  rfl

/-- **No function waits for itself, but for `heap_report`**, and that one exactly when a
call that it makes while the callsites are read-locked is sampled on a stack without
an id. -/
theorem clean_run_iff (e : EntryPoint) (c : Ctx) : Clean [] (e.run c).2 ↔
    ∀ during, e = .heapReport during →
      ∀ ips ∈ sampledStacks c.statics c.tls during, c.heap.lookup ips ≠ none := by
  cases e with
  | call k =>
    refine iff_of_true ?_ nofun
    rw [run, Call.run_eq]
    exact k.clean_trace _ _
  | reset keys sites => exact iff_of_true (resetWith_spec keys sites c).2 nofun
  | heapReport during =>
    rw [run, heapReportWith, clean_critical, clean_runAll_report]
    constructor
    · rintro ⟨-, hall⟩ d hd
      rw [EntryPoint.heapReport.injEq] at hd
      rwa [← hd]
    · exact fun hall => ⟨rfl, hall during rfl⟩

/-- Profiling has started at a rate of 512 bytes and one allocation was sampled. -/
def afterFirstSample : Ctx :=
  ((EntryPoint.call (.alloc 4096 1024 [7, 8] fun _ => [])).run
    ⟨⟨true, 512, HeapState.new⟩, ⟨false, 0⟩⟩).1

/-- A kilobyte allocated inside `heap_report` is sampled on a stack of its own, and the
thread waits for itself. -/
theorem heapReport_deadlocks :
    ¬Clean []
      ((EntryPoint.heapReport [.alloc 8192 1024 [9, 8] fun _ => []]).run afterFirstSample).2 := by
  decide +kernel

end EntryPoint

end Rpprof
