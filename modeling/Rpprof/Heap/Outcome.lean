import Mathlib.Algebra.Order.Group.Nat
import Rpprof.Export.Pprof
import Rpprof.Heap.Conversion
import Rpprof.Heap.Sequential

/-!
# What a heap profile says

The whole of a heap profile: a program that is started before or after the profiler, the hooks,
`heap_report`, and what becomes of the report.  For a program that does not stop the profiler
before it asks for the report, the records are of the sampled stacks, one each, with the samples
since the last reset and with the sampled blocks that are still allocated.

## Main definitions

* `Sys.heldObjects`, `Sys.heldBytes` — the sampled blocks of a stack that are still allocated.
* `Sys.Described` — the records say what became of the blocks of each sampled stack.

## Main results

* `HeapState.Ledger.liveSum` — what the shards add up to is what the blocks add up to.
* `Sys.described_of_reach` — **a heap report describes the heap**, whatever the run.
* `Sys.exported_of_reach` — **and so does the pprof file that is written of it**.
-/

namespace Rpprof

open HeapState (Sample capture sampleObjects sampleBytes)

/-! ### The live entries and the blocks -/

/-- A sum over the live entries is one over any addresses that include theirs. -/
theorem HeapState.liveSum_eq_sum (h : HeapState) (f : ℕ × ℕ → ℕ) {S : Finset ℕ}
    (hS : ∀ p, h.liveAt p ≠ none → p ∈ S) :
    h.liveSum f = ∑ p ∈ S, ((h.liveAt p).map f).getD 0 := by
  have hshard : ∀ i p, i ≠ shardIdx p → (h.shards i).get? p = none := by
    intro i p hne
    refine Option.eq_none_iff_forall_ne_some.mpr fun v hv => hne ?_
    exact (h.placed i p v hv).symm
  have hkeys : ∀ i, (h.shards i).valueSum f =
      ∑ p ∈ S, (((h.shards i).get? p).map f).getD 0 := by
    intro i
    refine Table.valueSum_eq_sum f (h.shards i) fun p hp => hS p ?_
    by_cases hi : i = shardIdx p
    · rw [liveAt, ← hi]
      exact hp
    · exact absurd (hshard i p hi) hp
  rw [liveSum, Finset.sum_congr rfl fun i _ => hkeys i, Finset.sum_comm]
  refine Finset.sum_congr rfl fun p _ => ?_
  refine Finset.sum_eq_single (shardIdx p) (fun i _ hi => ?_) fun hno => ?_
  · rw [hshard i p hi]
    rfl
  · exact absurd (Finset.mem_univ _) hno

namespace Sys

variable {Thread : Type}

/-- The number of allocated blocks that were sampled with the stack. -/
def heldObjects (s : Sys Thread) (ips : List ℕ) : ℕ :=
  s.blocks.valueSum fun b => if b.sample = some ips then 1 else 0

/-- Their bytes. -/
def heldBytes (s : Sys Thread) (ips : List ℕ) : ℕ :=
  s.blocks.valueSum fun b => if b.sample = some ips then b.size else 0

/-- The bytes of all the sampled blocks. -/
def heldTotal (s : Sys Thread) : ℕ :=
  s.blocks.valueSum fun b => if b.sample.isSome then b.size else 0

/-- **What the live entries add up to is what the sampled blocks add up to.** -/
theorem Ledger.liveSum {h : HeapState} {blocks : Table ℕ Block} (hl : Ledger h blocks)
    {f : ℕ × ℕ → ℕ} {g : Block → ℕ} (hzero : ∀ b, b.sample = none → g b = 0)
    (hfg : ∀ b ips id, b.sample = some ips → h.lookup ips = some id → f (id, b.size) = g b) :
    h.liveSum f = blocks.valueSum g := by
  have hkey : ∀ p, blocks.get? p ≠ none → p ∈ (blocks.entries.map Prod.fst).toFinset := by
    intro p hp
    obtain ⟨b, hb⟩ := Option.ne_none_iff_exists'.mp hp
    obtain ⟨k, hk, hkp⟩ := Table.exists_mem_of_get? hb
    rw [List.mem_toFinset, ← beq_iff_eq.mp hkp]
    exact List.mem_map_of_mem hk
  have hlive : ∀ p, h.liveAt p ≠ none → blocks.get? p ≠ none := by
    intro p hp
    obtain ⟨v, hv⟩ := Option.ne_none_iff_exists'.mp hp
    obtain ⟨b, ips, hb, -⟩ := hl.live p v hv
    rw [hb]
    exact Option.some_ne_none b
  rw [h.liveSum_eq_sum f fun p hp => hkey p (hlive p hp), Table.valueSum_eq_sum g blocks hkey]
  refine Finset.sum_congr rfl fun p _ => ?_
  cases hb : blocks.get? p with
  | none =>
    rw [hl.liveAt_of_free hb]
    rfl
  | some b =>
    cases hsample : b.sample with
    | none =>
      -- an unsampled block has no entry
      have hnone : h.liveAt p = none := by
        refine Option.eq_none_iff_forall_ne_some.mpr fun v hv => ?_
        obtain ⟨b', ips, hb', hsample', -⟩ := hl.live p v hv
        rw [hb, Option.some.injEq] at hb'
        rw [← hb', hsample] at hsample'
        cases hsample'
      rw [hnone, Option.map_some, Option.getD_some, hzero b hsample]
      rfl
    | some ips =>
      obtain ⟨id, hlook, hv⟩ := hl.complete p b ips hb hsample
      rw [hv, Option.map_some, Option.map_some, Option.getD_some, Option.getD_some,
        hfg b ips id hsample hlook]

/-- The live entries of a stack's id are the sampled blocks of the stack. -/
theorem Ledger.held {s : Sys Thread} (hl : Ledger s.heap s.blocks) (ha : s.heap.Agree)
    {ips : List ℕ} {id : ℕ} (hlook : s.heap.lookup ips = some id) :
    s.heap.liveObjects id = s.heldObjects ips ∧ s.heap.liveBytes id = s.heldBytes ips := by
  have hsame : ∀ ips' id', s.heap.lookup ips' = some id' → (id' = id ↔ ips' = ips) := by
    intro ips' id' hlook'
    constructor
    · rintro rfl
      exact ha.injective hlook' hlook
    · rintro rfl
      rw [hlook, Option.some.injEq] at hlook'
      exact hlook'.symm
  constructor
  · apply hl.liveSum
    · intro b hb
      rw [hb]
      rfl
    · intro b ips' id' hb hlook'
      simp only [HeapState.objectsOf, hb, hsame ips' id' hlook', Option.some.injEq]
  · apply hl.liveSum
    · intro b hb
      rw [hb]
      rfl
    · intro b ips' id' hb hlook'
      simp only [HeapState.bytesOf, hb, hsame ips' id' hlook', Option.some.injEq]

/-! ### Runs that do not stop the profiler -/

/-- The profiler has not been started yet. -/
structure Quiet (s : Sys Thread) : Prop extends s.Base where
  off : s.statics.isProfiling = false
  new : s.heap = HeapState.new
  unsampled : ∀ p b, s.blocks.get? p = some b → b.sample = none
  samples : s.samples = []

/-- There are data only of stacks that were sampled. -/
def Used (h : HeapState) : Prop := ∀ id d, h.callsites.get? id = some d → 0 < d.allocObjects

theorem used_new : Used HeapState.new := by
  intro id d hd
  cases hd

theorem Used.recordSample {h : HeapState} (hu : Used h) (ha : h.Agree) (ptr size : ℕ)
    (stack : List ℕ) : Used (h.recordSample ptr size stack) := by
  intro id d hd
  rw [HeapState.callsites_recordSample ha] at hd
  split at hd
  · rw [Option.some.injEq] at hd
    rw [← hd, CallsiteData.allocObjects_sampled]
    exact Nat.succ_pos _
  · exact hu id d hd

theorem Used.recordDealloc {h : HeapState} (hu : Used h) (ptr size : ℕ) :
    Used (h.recordDealloc ptr size) := by
  cases hlive : h.liveAt ptr with
  | none => rwa [HeapState.recordDealloc_of_none hlive]
  | some v =>
    intro id d hd
    rw [HeapState.callsites_recordDealloc hlive] at hd
    split at hd
    · obtain ⟨d', hd', rfl⟩ := Option.map_eq_some_iff.mp hd
      exact hu id d' hd'
    · exact hu id d hd

variable [DecidableEq Thread] {s s' : Sys Thread} {op : Op Thread}

theorem Used.step (hu : Used s.heap) (hb : s.Base) (h : s.step op = some s') : Used s'.heap := by
  rcases step_heap h with ⟨t, ptr, size, stack, -, -, rfl⟩ | ⟨t, ptr, b, -, -, rfl⟩ |
    ⟨t, ptr, b, newPtr, newSize, stack, -, -, -, rfl⟩ | ⟨-, rfl⟩ | ⟨-, hheap, -⟩
  · rw [heap_afterAlloc]
    split
    · exact hu.recordSample hb.sound.toAgree ptr size stack
    · exact hu
  · rw [heap_afterDealloc]
    split
    · exact hu.recordDealloc ptr b.size
    · exact hu
  · rw [heap_afterRealloc]
    split
    · exact (hu.recordDealloc ptr b.size).recordSample (hb.sound.toAgree.recordDealloc ptr b.size)
        newPtr newSize stack
    · exact hu
  · show Used s.heap.reset
    rw [HeapState.reset_eq_new]
    exact used_new
  · rw [hheap]
    exact hu

omit [DecidableEq Thread] in
theorem Quiet.init (rate : ℕ) (bytesLeft : Thread → ℤ) (sizes : Table ℕ ℕ) :
    (init false rate bytesLeft sizes : Sys Thread).Quiet where
  toBase := Base.init false rate bytesLeft sizes
  off := rfl
  new := rfl
  unsampled p b hb := by
    simp only [Sys.init, Table.get?_mapValues] at hb
    obtain ⟨size, -, rfl⟩ := Option.map_eq_some_iff.mp hb
    rfl
  samples := rfl

omit [DecidableEq Thread] in
/-- The ledger of a profiler that has not been started yet, when it is. -/
theorem Quiet.profiled (hq : s.Quiet) (hb : s'.Base) (hon : s'.statics.isProfiling = true)
    (hheap : s'.heap = s.heap) (hblocks : s'.blocks = s.blocks)
    (hsamples : s'.samples = s.samples) : s'.Profiled := by
  rw [hq.new] at hheap
  rw [hq.samples] at hsamples
  refine ⟨hb, hon, ?_, ?_, ?_⟩
  · rw [hheap, hblocks]
    exact Ledger.of_unsampled hq.unsampled
  · rw [hheap]
    exact HeapState.Exact.new
  · rw [hheap, hsamples]
    exact HeapState.Counts.new

/-- A step before the profiler is started, unless it starts it. -/
theorem Quiet.step (hq : s.Quiet) (h : s.step op = some s') : s'.Quiet ∨ s'.Profiled := by
  have hb := hq.toBase.step h
  have hunsampled : ∀ (blocks : Table ℕ Block) ptr size,
      (∀ p b, blocks.get? p = some b → b.sample = none) →
      ∀ p b, (blocks.insert ptr ⟨size, none⟩).get? p = some b → b.sample = none := by
    intro blocks ptr size hblocks p b hget
    rw [Table.get?_insert] at hget
    split at hget
    · cases hget
      rfl
    · exact hblocks p b hget
  have herase : ∀ ptr p b, (s.blocks.erase ptr).get? p = some b → b.sample = none := by
    intro ptr p b hget
    rw [Table.get?_erase] at hget
    split at hget
    · cases hget
    · exact hq.unsampled p b hget
  rcases step_heap h with ⟨t, ptr, size, stack, -, -, rfl⟩ | ⟨t, ptr, b, -, -, rfl⟩ |
    ⟨t, ptr, b, newPtr, newSize, stack, -, -, -, rfl⟩ | ⟨-, rfl⟩ |
    ⟨-, hheap, -, hblocks, hsamples, -⟩
  · -- the hook does nothing
    have hno : s.statics.allocSamples (s.tls t) ptr size = false := by
      rw [Statics.allocSamples, hq.off, Bool.and_false, Bool.false_and]
    have hoff : (s.afterAlloc t ptr size stack).statics.isProfiling = false :=
      (s.statics.isProfiling_alloc (s.tls t) ptr size stack).trans hq.off
    refine Or.inl ⟨hb, hoff, ?_, ?_, ?_⟩
    · rw [heap_afterAlloc, hno]
      exact hq.new
    · simp only [afterAlloc, hno, sampleIf, Bool.false_eq_true, if_false]
      split
      · exact hq.unsampled
      · exact hunsampled s.blocks ptr size hq.unsampled
    · simp only [afterAlloc, hno, addSampleIf, Bool.false_eq_true, if_false]
      exact hq.samples
  · have hoff : (s.afterDealloc t ptr b.size).statics.isProfiling = false :=
      (s.statics.isProfiling_dealloc (s.tls t) ptr b.size).trans hq.off
    refine Or.inl ⟨hb, hoff, ?_, herase ptr, hq.samples⟩
    rw [heap_afterDealloc, hq.off]
    exact hq.new
  · have hno : s.statics.reallocSamples (s.tls t) newPtr = false := by
      rw [Statics.reallocSamples, hq.off, Bool.and_false, Bool.false_and]
    have hoff : (s.afterRealloc t ptr b.size newPtr newSize stack).statics.isProfiling = false :=
      (s.statics.isProfiling_realloc (s.tls t) ptr b.size newPtr newSize stack).trans hq.off
    refine Or.inl ⟨hb, hoff, ?_, ?_, ?_⟩
    · rw [heap_afterRealloc, hno]
      exact hq.new
    · simp only [afterRealloc, hno, sampleIf, Bool.false_eq_true, if_false]
      split
      · exact hq.unsampled
      · exact hunsampled _ newPtr newSize (herase ptr)
    · simp only [afterRealloc, hno, addSampleIf, Bool.false_eq_true, if_false]
      exact hq.samples
  · refine Or.inl ⟨hb, hq.off, s.heap.reset_eq_new, fun p b hget => ?_, rfl⟩
    rw [Table.get?_mapValues] at hget
    obtain ⟨b₀, -, rfl⟩ := Option.map_eq_some_iff.mp hget
    rfl
  · cases hon : s'.statics.isProfiling with
    | true => exact Or.inr (hq.profiled hb hon hheap hblocks hsamples)
    | false =>
      refine Or.inl ⟨hb, hon, hheap.trans hq.new, ?_, hsamples.trans hq.samples⟩
      rw [hblocks]
      exact hq.unsampled

/-- What the tables say of the blocks, before the profiler is started and after. -/
structure Kept (s : Sys Thread) : Prop where
  sound : s.heap.Sound
  ledger : Ledger s.heap s.blocks
  inuse : s.heap.Exact
  allocs : s.heap.Counts s.samples
  used : Used s.heap

/-- The invariant of every run that does not stop the profiler. -/
def Unstopped (s : Sys Thread) : Prop := (s.Quiet ∨ s.Profiled) ∧ Used s.heap

theorem Unstopped.step (hs : s.Unstopped) (hop : op ≠ .stop) (h : s.step op = some s') :
    s'.Unstopped := by
  obtain ⟨hq | hp, hu⟩ := hs
  · exact ⟨hq.step h, hu.step hq.toBase h⟩
  · exact ⟨Or.inr (hp.step hop h), hu.step hp.toBase h⟩

omit [DecidableEq Thread] in
theorem Unstopped.init (on : Bool) (rate : ℕ) (bytesLeft : Thread → ℤ) (sizes : Table ℕ ℕ) :
    (init on rate bytesLeft sizes).Unstopped := by
  refine ⟨?_, used_new⟩
  cases on with
  | false => exact Or.inl (Quiet.init rate bytesLeft sizes)
  | true => exact Or.inr (Profiled.init rate bytesLeft sizes)

omit [DecidableEq Thread] in
theorem Unstopped.kept (hs : s.Unstopped) : s.Kept := by
  obtain ⟨hq | hp, hu⟩ := hs
  · have hledger : Ledger s.heap s.blocks := by
      rw [hq.new]
      exact Ledger.of_unsampled hq.unsampled
    refine ⟨hq.sound, hledger, ?_, ?_, hu⟩
    · rw [hq.new]
      exact HeapState.Exact.new
    · rw [hq.new, hq.samples]
      exact HeapState.Counts.new
  · exact ⟨hp.sound, hp.ledger, hp.inuse, hp.allocs, hu⟩

/-- The tables after any run that does not stop the profiler. -/
theorem kept_of_reach (on : Bool) (rate : ℕ) (bytesLeft : Thread → ℤ) (sizes : Table ℕ ℕ)
    (h : Machine.Reach step (fun _ op => op ≠ .stop) (init on rate bytesLeft sizes) s) :
    s.Kept :=
  (h.invariant (Unstopped.init on rate bytesLeft sizes)
    fun _ _ _ hs hop hstep => hs.step hop hstep).kept

/-! ### The report -/

/-- The stacks that were sampled since the last reset, those of sampled blocks among them. -/
structure Sampled (s : Sys Thread) (traces : List (List ℕ)) : Prop where
  nodup : traces.Nodup
  samples : ∀ ips, ips ∈ traces ↔ ∃ x ∈ s.samples, x.ips = ips
  blocks : ∀ p b ips, s.blocks.get? p = some b → b.sample = some ips → ips ∈ traces

/-- **The report describes the heap**: it has one record for each stack that was sampled since the
last reset, with the samples of the stack and with its sampled blocks that are still allocated. -/
structure Described (resolve : ℕ → List Symbol) (s : Sys Thread) (traces : List (List ℕ))
    (report : HeapReport) : Prop extends s.Sampled traces where
  records : List.Forall₂ (fun ips (r : HeapRecord) => r.frames.frames = resolveIps resolve ips ∧
    r.allocObjects = sampleObjects ips s.samples ∧ r.allocBytes = sampleBytes ips s.samples ∧
    r.inuseObjects = s.heldObjects ips ∧ r.inuseBytes = s.heldBytes ips) traces report.records

omit [DecidableEq Thread] in
/-- The stacks of the callsites, in the order of the table. -/
theorem Kept.mem_traces (hk : s.Kept) (ips : List ℕ) :
    ips ∈ s.heap.callsites.entries.map (fun e => e.2.ips) ↔ ∃ id, s.heap.lookup ips = some id := by
  rw [List.mem_map]
  constructor
  · rintro ⟨e, he, rfl⟩
    exact ⟨e.1, hk.sound.bound e.1 e.2 (Table.get?_of_mem he)⟩
  · rintro ⟨id, hlook⟩
    obtain ⟨d, hd, rfl⟩ := hk.sound.data ips id hlook
    obtain ⟨k, hmem, -⟩ := Table.exists_mem_of_get? hd
    exact ⟨(k, d), hmem, rfl⟩

omit [DecidableEq Thread] in
theorem Kept.described (hk : s.Kept) (resolve : ℕ → List Symbol) (clock : ℕ → ℕ)
    (sampleRate : ℕ) : Described resolve s (s.heap.callsites.entries.map fun e => e.2.ips)
      (heapReport resolve clock s.heap sampleRate) where
  nodup := by
    rw [List.Nodup, List.pairwise_map]
    refine s.heap.callsites.distinct.imp_of_mem fun {e e'} he he' hne hips => ?_
    have hlook := hk.sound.bound e.1 e.2 (Table.get?_of_mem he)
    rw [hips, hk.sound.bound e'.1 e'.2 (Table.get?_of_mem he'), Option.some.injEq] at hlook
    rw [hlook, beq_self_eq_true] at hne
    cases hne
  samples ips := by
    rw [hk.mem_traces]
    constructor
    · rintro ⟨id, hlook⟩
      -- the data count a sample at least
      obtain ⟨d, hd, rfl⟩ := hk.sound.data ips id hlook
      have hpos := hk.used id d hd
      rw [(hk.allocs.exact id d hd).1, sampleObjects, List.countP_pos_iff] at hpos
      obtain ⟨x, hx, hips⟩ := hpos
      exact ⟨x, hx, by simpa using hips⟩
    · rintro ⟨x, hx, rfl⟩
      exact Option.ne_none_iff_exists'.mp (hk.allocs.named x hx)
  blocks p b ips hb hsample := by
    obtain ⟨id, hlook, -⟩ := hk.ledger.complete p b ips hb hsample
    exact (hk.mem_traces ips).mpr ⟨id, hlook⟩
  records := by
    rw [heapReport, List.forall₂_iff_get]
    refine ⟨by rw [List.length_map, List.length_mapIdx], fun i hi hi' => ?_⟩
    rw [List.length_map] at hi
    obtain ⟨e, he⟩ : ∃ e, s.heap.callsites.entries[i] = e := ⟨_, rfl⟩
    have hd : s.heap.callsites.get? e.1 = some e.2 :=
      Table.get?_of_mem (he ▸ List.getElem_mem hi)
    obtain ⟨hobjects, hbytes⟩ := hk.allocs.exact e.1 e.2 hd
    obtain ⟨hheld, hheldBytes⟩ := hk.ledger.held hk.sound.toAgree (hk.sound.bound e.1 e.2 hd)
    obtain ⟨hinuse, hinuseBytes⟩ := hk.inuse e.1 e.2 hd
    rw [hheld] at hinuse
    rw [hheldBytes] at hinuseBytes
    simp only [List.get_eq_getElem, List.getElem_map, List.getElem_mapIdx, he]
    exact ⟨trivial, hobjects, hbytes, hinuse, hinuseBytes⟩

/-! ### Totals -/

omit [DecidableEq Thread] in
/-- The bytes of the stacks are the bytes of the blocks. -/
theorem Sampled.sum_heldBytes {traces : List (List ℕ)} (hs : s.Sampled traces) :
    (traces.map s.heldBytes).sum = s.heldTotal := by
  have hkeys : ∀ p, s.blocks.get? p ≠ none → p ∈ (s.blocks.entries.map Prod.fst).toFinset := by
    intro p hp
    obtain ⟨b, hb⟩ := Option.ne_none_iff_exists'.mp hp
    obtain ⟨k, hk, hkp⟩ := Table.exists_mem_of_get? hb
    rw [List.mem_toFinset, ← beq_iff_eq.mp hkp]
    exact List.mem_map_of_mem hk
  have hheld : ∀ ips ∈ traces.toFinset, s.heldBytes ips =
      ∑ p ∈ (s.blocks.entries.map Prod.fst).toFinset, ((s.blocks.get? p).map fun b =>
        if b.sample = some ips then b.size else 0).getD 0 :=
    fun ips _ => Table.valueSum_eq_sum _ s.blocks hkeys
  rw [← List.sum_toFinset s.heldBytes hs.nodup, Finset.sum_congr rfl hheld, Finset.sum_comm,
    heldTotal, Table.valueSum_eq_sum _ s.blocks hkeys]
  refine Finset.sum_congr rfl fun p _ => ?_
  cases hb : s.blocks.get? p with
  | none => exact Finset.sum_eq_zero fun ips _ => rfl
  | some b =>
    simp only [Option.map_some, Option.getD_some]
    cases hsample : b.sample with
    | none => exact Finset.sum_eq_zero fun ips _ => rfl
    | some ips =>
      -- one of the stacks is its own
      simp only [Option.some.injEq, Finset.sum_ite_eq, List.mem_toFinset,
        hs.blocks p b ips hb hsample, Option.isSome_some, if_true]

omit [DecidableEq Thread] in
/-- The bytes of the samples of the stacks are the bytes of all the samples. -/
theorem Sampled.sum_sampleBytes {traces : List (List ℕ)} (hs : s.Sampled traces) :
    (traces.map fun ips => sampleBytes ips s.samples).sum = (s.samples.map Sample.size).sum := by
  have hall : ∀ samples : List Sample, (∀ x ∈ samples, x.ips ∈ traces) →
      ∑ ips ∈ traces.toFinset, sampleBytes ips samples = (samples.map Sample.size).sum := by
    intro samples
    induction samples with
    | nil => exact fun _ => Finset.sum_eq_zero fun ips _ => rfl
    | cons x samples ih =>
      intro hmem
      rw [List.forall_mem_cons] at hmem
      have hcons : ∀ ips ∈ traces.toFinset, sampleBytes ips (x :: samples) =
          (if x.ips = ips then x.size else 0) + sampleBytes ips samples := by
        intro ips _
        rw [sampleBytes, List.filter_cons]
        by_cases hips : x.ips = ips
        · rw [if_pos (decide_eq_true hips), if_pos hips, List.map_cons, List.sum_cons, sampleBytes]
        · rw [if_neg (by simpa using hips), if_neg hips, Nat.zero_add, sampleBytes]
      rw [Finset.sum_congr rfl hcons, Finset.sum_add_distrib, ih hmem.2, Finset.sum_ite_eq,
        if_pos (List.mem_toFinset.mpr hmem.1), List.map_cons, List.sum_cons]
  rw [← List.sum_toFinset _ hs.nodup]
  exact hall s.samples fun x hx => (hs.samples x.ips).mpr ⟨x, hx, rfl⟩

theorem sampleBytes_le (ips : List ℕ) (samples : List Sample) :
    sampleBytes ips samples ≤ (samples.map Sample.size).sum :=
  (List.filter_sublist.map Sample.size).sum_le_sum fun _ _ => Nat.zero_le _

omit [DecidableEq Thread] in
/-- `total_inuse_bytes` is what the sampled blocks take up. -/
theorem Described.totalInuseBytes {resolve : ℕ → List Symbol} {traces : List (List ℕ)}
    {report : HeapReport} (hd : Described resolve s traces report) (hmax : s.heldTotal < 2 ^ 63) :
    report.totalInuseBytes = some (s.heldTotal : ℤ) := by
  have hcolumn : report.records.map (fun r => max r.inuseBytes 0) =
      traces.map fun ips => (s.heldBytes ips : ℤ) := by
    rw [← List.forall₂_eq_eq_eq, List.forall₂_map_left_iff, List.forall₂_map_right_iff]
    refine hd.records.flip.imp fun r ips hr => ?_
    rw [hr.2.2.2.2]
    exact max_eq_left (Int.natCast_nonneg _)
  have hsum : (report.records.map fun r => max r.inuseBytes 0).sum = (s.heldTotal : ℤ) := by
    rw [hcolumn, ← hd.sum_heldBytes, Nat.cast_list_sum, List.map_map]
    rfl
  have hop : ∀ a b : ℤ, 0 ≤ a + b ∧ a + b < 2 ^ 63 → checkedI64 (a + b) = some (a + b) :=
    fun a b h => if_pos ⟨by omega, h.2⟩
  have htotal := List.foldlM_checked_eq (I := fun x => 0 ≤ x ∧ x < 2 ^ 63) hop
    (fun a b hab ha hb => ⟨ha, hab.trans_lt hb.2⟩)
    (f := fun r : HeapRecord => max r.inuseBytes 0) (fun r => le_max_right _ _)
    (l := report.records) le_rfl (by rw [hsum]; omega)
  rw [zero_add, hsum] at htotal
  exact htotal

omit [DecidableEq Thread] in
/-- `total_alloc_bytes` is what the samples took up. -/
theorem Described.totalAllocBytes {resolve : ℕ → List Symbol} {traces : List (List ℕ)}
    {report : HeapReport} (hd : Described resolve s traces report)
    (hmax : (s.samples.map Sample.size).sum < 2 ^ 64) :
    report.totalAllocBytes = some (s.samples.map Sample.size).sum := by
  have hcolumn : report.records.map HeapRecord.allocBytes =
      traces.map fun ips => sampleBytes ips s.samples := by
    rw [← List.forall₂_eq_eq_eq, List.forall₂_map_left_iff, List.forall₂_map_right_iff]
    exact hd.records.flip.imp fun r ips hr => hr.2.2.1
  have hsum : (report.records.map HeapRecord.allocBytes).sum =
      (s.samples.map Sample.size).sum := by
    rw [hcolumn, hd.sum_sampleBytes]
  have hop : ∀ a b : ℕ, a + b < 2 ^ 64 → usizeAdd a b = some (a + b) := fun a b h => if_pos h
  have htotal := List.foldlM_checked_eq (I := (· < 2 ^ 64)) hop
    (fun a b hab _ hb => hab.trans_lt hb) (f := HeapRecord.allocBytes) (fun r => Nat.zero_le _)
    (l := report.records) le_rfl (by rw [hsum, Nat.zero_add]; exact hmax)
  rw [Nat.zero_add, hsum] at htotal
  exact htotal

/-! ### From the start to the report -/

/-- **A heap report describes the heap.**  The profiler is started at any time and not stopped
again, and threads allocate, free and move blocks, reset the profiler and set the rate: then the
records are of the stacks sampled since the last reset, with their samples and with their sampled
blocks that are still allocated, and the totals are the sizes of these. -/
theorem described_of_reach (on : Bool) (rate : ℕ) (bytesLeft : Thread → ℤ) (sizes : Table ℕ ℕ)
    (h : Machine.Reach step (fun _ op => op ≠ .stop) (init on rate bytesLeft sizes) s)
    (resolve : ℕ → List Symbol) (clock : ℕ → ℕ) :
    ∃ traces, Described resolve s traces (heapReport resolve clock s.heap s.statics.sampleRate) ∧
      (s.heldTotal < 2 ^ 63 → (heapReport resolve clock s.heap
        s.statics.sampleRate).totalInuseBytes = some (s.heldTotal : ℤ)) ∧
      ((s.samples.map Sample.size).sum < 2 ^ 64 → (heapReport resolve clock s.heap
        s.statics.sampleRate).totalAllocBytes = some (s.samples.map Sample.size).sum) := by
  have hd := (kept_of_reach on rate bytesLeft sizes h).described resolve clock
    s.statics.sampleRate
  exact ⟨_, hd, hd.totalInuseBytes, hd.totalAllocBytes⟩

/-- A block that was there before the profiler is moved, one is allocated and kept, and one of the
same stack is freed. -/
def startedOps : List (Op Unit) :=
  [.alloc () 4096 64 [3], .start, .alloc () 8192 1024 [7, 8], .realloc () 4096 4112 128 [9],
    .alloc () 12288 2048 [7, 8], .dealloc () 12288]

theorem described_of_reach_startedOps :
    ∃ s, Machine.run step (init false 512 (fun _ => 0) Table.empty) startedOps = some s ∧
      ∃ traces, Described growSymbols s traces
          (heapReport growSymbols id s.heap s.statics.sampleRate) ∧
        (s.heldTotal < 2 ^ 63 → (heapReport growSymbols id s.heap
          s.statics.sampleRate).totalInuseBytes = some (s.heldTotal : ℤ)) ∧
        ((s.samples.map Sample.size).sum < 2 ^ 64 → (heapReport growSymbols id s.heap
          s.statics.sampleRate).totalAllocBytes = some (s.samples.map Sample.size).sum) := by
  have hall : Machine.Throughout step (fun _ op => op ≠ .stop)
      (init false 512 (fun _ => 0) Table.empty) startedOps := by decide +kernel
  have hrun : (Machine.run step (init false 512 (fun _ => 0) Table.empty) startedOps).isSome := by
    decide +kernel
  obtain ⟨s, hs⟩ := Option.isSome_iff_exists.mp hrun
  exact ⟨s, hs, described_of_reach false 512 (fun _ => 0) Table.empty
    (Machine.Reach.of_throughout hall hs) growSymbols id⟩

/-- **The pprof file of a heap report describes the heap.**  A reader of it finds one sample for
each stack sampled since the last reset, with the names of its frames and with the four values. -/
theorem exported_of_reach (on : Bool) (rate : ℕ) (bytesLeft : Thread → ℤ) (sizes : Table ℕ ℕ)
    (h : Machine.Reach step (fun _ op => op ≠ .stop) (init on rate bytesLeft sizes) s)
    (hcount : s.samples.length < 2 ^ 63) (hbytes : (s.samples.map Sample.size).sum < 2 ^ 63)
    (resolve : ℕ → List Symbol) (clock : ℕ → ℕ) (demangle : String → String) (order : SetOrder) :
    ∃ traces p, s.Sampled traces ∧ (heapReport resolve clock s.heap s.statics.sampleRate).pprof
        demangle order = some p ∧ p.WellFormed ∧
      p.sampleType.mapM p.valueType = some [("alloc_objects", "count"), ("alloc_space", "bytes"),
        ("inuse_objects", "count"), ("inuse_space", "bytes")] ∧
      List.Forall₂ (fun ips smp =>
        p.names smp = some ((resolveIps resolve ips).flatten.map (Symbol.demangled demangle)) ∧
        smp.value = [(sampleObjects ips s.samples : ℤ), (sampleBytes ips s.samples : ℤ),
          (s.heldObjects ips : ℤ), (s.heldBytes ips : ℤ)]) traces p.sample := by
  have hd := (kept_of_reach on rate bytesLeft sizes h).described resolve clock
    s.statics.sampleRate
  obtain ⟨p, hp⟩ := HeapReport.exists_pprof demangle order
    (heapReport resolve clock s.heap s.statics.sampleRate)
  have hshows := HeapReport.pprof_spec hp
  obtain ⟨firsts, hw⟩ := hshows.written
  have htypes := ((List.mapM_eq_some_iff _ _ _).mp hshows.types).length_eq
  refine ⟨_, p, hd.toSampled, hp, hw.wellFormed hshows.own fun smp hsmp => ?_, hshows.types, ?_⟩
  · obtain ⟨r, -, hvalue⟩ := hshows.samples.exists_left hsmp
    rw [hvalue, htypes]
    simp only [List.length_cons, List.length_nil]
  · have hnames := hw.names
    rw [List.forall₂_map_left_iff] at hnames
    have hrows := List.Forall₂.mp (fun _ _ hvalue hname => And.intro hname hvalue)
      hshows.samples hnames
    refine (hd.records.comp hrows).imp fun ips smp hsmp => ?_
    obtain ⟨r, ⟨hframes, hobjects, hbytesOf, hinuse, hinuseBytes⟩, hname, hvalue⟩ := hsmp
    have hle : sampleObjects ips s.samples ≤ s.samples.length := List.countP_le_length
    have hleBytes := sampleBytes_le ips s.samples
    rw [hobjects, hbytesOf, hinuse, hinuseBytes, asI64_of_lt (by omega), asI64_of_lt (by omega),
      max_eq_left (Int.natCast_nonneg _), max_eq_left (Int.natCast_nonneg _)] at hvalue
    rw [Frames.names, Frames.symbols, hframes] at hname
    exact ⟨hname, hvalue⟩

theorem exported_of_reach_startedOps :
    ∃ s, Machine.run step (init false 512 (fun _ => 0) Table.empty) startedOps = some s ∧
      ∃ traces p, s.Sampled traces ∧ (heapReport growSymbols id s.heap s.statics.sampleRate).pprof
          id default = some p ∧ p.WellFormed ∧
        p.sampleType.mapM p.valueType = some [("alloc_objects", "count"),
          ("alloc_space", "bytes"), ("inuse_objects", "count"), ("inuse_space", "bytes")] ∧
        List.Forall₂ (fun ips smp =>
          p.names smp = some ((resolveIps growSymbols ips).flatten.map (Symbol.demangled id)) ∧
          smp.value = [(sampleObjects ips s.samples : ℤ), (sampleBytes ips s.samples : ℤ),
            (s.heldObjects ips : ℤ), (s.heldBytes ips : ℤ)]) traces p.sample := by
  have hall : Machine.Throughout step (fun _ op => op ≠ .stop)
      (init false 512 (fun _ => 0) Table.empty) startedOps := by decide +kernel
  have hrun : (Machine.run step (init false 512 (fun _ => 0) Table.empty) startedOps).map
      (fun s => (s.samples.length, (s.samples.map Sample.size).sum)) = some (3, 3200) := by
    decide +kernel
  obtain ⟨s, hs, hobs⟩ := Option.map_eq_some_iff.mp hrun
  rw [Prod.mk.injEq] at hobs
  have hcount : s.samples.length < 2 ^ 63 := by omega
  have hbytes : (s.samples.map Sample.size).sum < 2 ^ 63 := by omega
  exact ⟨s, hs, exported_of_reach false 512 (fun _ => 0) Table.empty
    (Machine.Reach.of_throughout hall hs) hcount hbytes growSymbols id id default⟩

end Sys

end Rpprof
