import Rpprof.Heap.Names
import Rpprof.Heap.Sequential

/-!
# The counters fit

The counters of a callsite are 64 bits wide, and the additions wrap silently.  The tables have
numbers in their place, and this is why they may: no counter is ever larger, or further below zero,
than what was sampled so far, whatever the threads do and however resets come in between.  What is
subtracted is subtracted once, and was sampled before.

## Main definitions

* `Counter` — which of the four counters, with what a sample adds to it.
* `HeapState.Within` — every counter is between what was sampled and its opposite, with what is
  still to be added and to be subtracted.

## Main results

* `Sys.fits_of_reach`, `Pool.counters_fit_of_reach` — **while the sampled bytes fit 63 bits, so does
  every counter**, one operation after the other and under threads.
-/

namespace Rpprof

open HeapState (Sample capture)

/-- The counters of a callsite. -/
inductive Counter where
  | allocObjects
  | allocBytes
  | inuseObjects
  | inuseBytes
deriving DecidableEq, Repr

namespace Counter

/-- What a sample of this size adds to the counter. -/
def weight : Counter → ℕ → ℕ
  | allocObjects, _ | inuseObjects, _ => 1
  | allocBytes, size | inuseBytes, size => size

/-- What the counter shows. -/
def value : Counter → CallsiteData → ℤ
  | allocObjects, d => d.allocObjects
  | allocBytes, d => d.allocBytes
  | inuseObjects, d => d.inuseObjects
  | inuseBytes, d => d.inuseBytes

/-- What the samples add up to. -/
def total (c : Counter) (samples : List Sample) : ℕ := (samples.map fun x => c.weight x.size).sum

@[simp] theorem value_fresh (c : Counter) (ips : List ℕ) :
    c.value (CallsiteData.fresh ips) = 0 := by
  cases c <;> rfl

@[simp] theorem value_sampled (c : Counter) (size : ℕ) (d : CallsiteData) :
    c.value (d.sampled size) = c.value d + c.weight size := by
  cases c <;> simp [value, weight]

theorem value_freed (c : Counter) (size : ℕ) (d : CallsiteData) :
    c.value d - c.weight size ≤ c.value (d.freed size) ∧ c.value (d.freed size) ≤ c.value d := by
  cases c <;> simp only [value, weight, CallsiteData.allocObjects_freed,
    CallsiteData.allocBytes_freed, CallsiteData.inuseObjects_freed,
    CallsiteData.inuseBytes_freed] <;> omega

@[simp] theorem total_cons (c : Counter) (x : Sample) (samples : List Sample) :
    c.total (x :: samples) = c.total samples + c.weight x.size := by
  rw [total, List.map_cons, List.sum_cons, Nat.add_comm]
  rfl

/-- The counter has the bits for it: an `AtomicU64`, or an `AtomicI64`. -/
def Fits : Counter → ℤ → Prop
  | allocObjects, x | allocBytes, x => 0 ≤ x ∧ x < 2 ^ 64
  | inuseObjects, x | inuseBytes, x => -2 ^ 63 ≤ x ∧ x < 2 ^ 63

/-- A counter that is no further from zero than what was sampled, which is not too much. -/
theorem fits (c : Counter) {d : CallsiteData} {samples : List Sample}
    (hlow : -(c.total samples : ℤ) ≤ c.value d) (hhigh : c.value d ≤ c.total samples)
    (hcount : samples.length < 2 ^ 63) (hbytes : (samples.map Sample.size).sum < 2 ^ 63) :
    c.Fits (c.value d) := by
  have hobjects : (samples.map fun _ => 1).sum = samples.length := by simp
  have hsizes : (samples.map fun x => x.size).sum < 2 ^ 63 := hbytes
  cases c <;> simp only [Fits, value, total, weight] at hlow hhigh ⊢ <;> omega

end Counter

/-! ### The tables -/

namespace HeapState

variable {c : Counter} {h : HeapState} {add sub total : ℕ}

/-- What the live entries would take off a counter. -/
def held (h : HeapState) (c : Counter) : ℕ := h.liveSum fun v => c.weight v.2

/-- Every counter is between `total` and its opposite, with `add` still to be added to some
callsite, and `sub` to be subtracted apart from the live entries. -/
structure Within (c : Counter) (h : HeapState) (add sub total : ℕ) : Prop where
  adds : add ≤ total
  subs : h.held c + sub ≤ total
  upper : ∀ id d, h.callsites.get? id = some d → c.value d + add ≤ total
  lower : ∀ id d, h.callsites.get? id = some d → (h.held c + sub : ℕ) ≤ total + c.value d

namespace Within

theorem new (c : Counter) : Within c HeapState.new 0 0 0 := by
  have hheld : HeapState.new.held c = 0 := liveSum_eq_zero fun p v hv => by cases hv
  refine ⟨le_rfl, by rw [hheld], fun id d hd => ?_, fun id d hd => ?_⟩
  · cases hd
  · cases hd

theorem bounds (hw : Within c h add sub total) {id : ℕ} {d : CallsiteData}
    (hd : h.callsites.get? id = some d) : -(total : ℤ) ≤ c.value d ∧ c.value d ≤ total := by
  have hupper := hw.upper id d hd
  have hlower := hw.lower id d hd
  omega

/-- No more is to be added and subtracted than before, or than is sampled meanwhile, and no data
are new. -/
theorem of_le {h' : HeapState} {add' sub' total' : ℕ} (hw : Within c h add sub total)
    (hadd : add' + total ≤ add + total') (hsub : h'.held c + sub' + total ≤ h.held c + sub + total')
    (hdata : ∀ id d, h'.callsites.get? id = some d → h.callsites.get? id = some d) :
    Within c h' add' sub' total' := by
  obtain ⟨hadds, hsubs, hupper, hlower⟩ := hw
  refine ⟨by omega, by omega, fun id d hd => ?_, fun id d hd => ?_⟩
  · have := hupper id d (hdata id d hd)
    omega
  · have := hlower id d (hdata id d hd)
    omega

/-- A sample begins. -/
theorem begin (hw : Within c h add sub total) (w : ℕ) :
    Within c h (add + w) (sub + w) (total + w) :=
  hw.of_le (by omega) (by omega) fun _ _ hd => hd

theorem mono {add' sub' : ℕ} (hw : Within c h add sub total) (hadd : add' ≤ add)
    (hsub : sub' ≤ sub) : Within c h add' sub' total :=
  hw.of_le (by omega) (by omega) fun _ _ hd => hd

/-- One atomic addition, or one subtraction. -/
theorem updateCallsite {add' sub' : ℕ} (hw : Within c h add sub total) (id : ℕ)
    {f : CallsiteData → CallsiteData} (hadd : add' ≤ add) (hsub : sub' ≤ sub)
    (hupper : ∀ d, c.value (f d) + add' ≤ c.value d + add)
    (hlower : ∀ d, sub' + c.value d ≤ sub + c.value (f d)) :
    Within c (h.updateCallsite id f) add' sub' total := by
  have hheld : (h.updateCallsite id f).held c = h.held c := rfl
  have hold : ∀ a d', (h.updateCallsite id f).callsites.get? a = some d' →
      ∃ d, h.callsites.get? a = some d ∧ c.value d' + add' ≤ c.value d + add ∧
        sub' + c.value d ≤ sub + c.value d' := by
    intro a d' hd'
    rw [callsites_updateCallsite] at hd'
    split at hd'
    · obtain ⟨d, hd, rfl⟩ := Option.map_eq_some_iff.mp hd'
      exact ⟨d, hd, hupper d, hlower d⟩
    · exact ⟨d', hd', by omega, by omega⟩
  refine ⟨hadd.trans hw.adds, ?_, fun a d' hd' => ?_, fun a d' hd' => ?_⟩
  · have := hw.subs
    omega
  · obtain ⟨d, hd, hup, -⟩ := hold a d' hd'
    have := hw.upper a d hd
    omega
  · obtain ⟨d, hd, -, hlow⟩ := hold a d' hd'
    have := hw.lower a d hd
    omega

/-- New data begin at zero. -/
theorem insertCallsite (hw : Within c h add sub total) (id : ℕ) (ips : List ℕ) :
    Within c (h.insertCallsite id ips) add sub total := by
  have hheld : (h.insertCallsite id ips).held c = h.held c := rfl
  have hold : ∀ a d, (h.insertCallsite id ips).callsites.get? a = some d →
      c.value d = 0 ∨ h.callsites.get? a = some d := by
    intro a d hd
    simp only [HeapState.insertCallsite, Table.get?_insert] at hd
    split at hd
    · cases hd
      exact Or.inl (c.value_fresh ips)
    · exact Or.inr hd
  refine ⟨hw.adds, hheld ▸ hw.subs, fun a d hd => ?_, fun a d hd => ?_⟩
  · rcases hold a d hd with hzero | hd
    · have := hw.adds
      omega
    · exact hw.upper a d hd
  · rcases hold a d hd with hzero | hd
    · have := hw.subs
      omega
    · exact hheld ▸ hw.lower a d hd

/-- A live entry is inserted. -/
theorem insertLive {size : ℕ} (hw : Within c h add (sub + c.weight size) total) (ptr id : ℕ) :
    Within c (h.insertLive ptr id size) add sub total := by
  refine hw.of_le le_rfl ?_ fun _ _ hd => hd
  simp only [held]
  cases hptr : h.liveAt ptr with
  | none =>
    have hsum : (h.insertLive ptr id size).liveSum (fun v => c.weight v.2) =
        h.liveSum (fun v => c.weight v.2) + c.weight size :=
      liveSum_insertLive_of_none hptr id size _
    omega
  | some v =>
    have hsum : (h.insertLive ptr id size).liveSum (fun v => c.weight v.2) + c.weight v.2 =
        h.liveSum (fun v => c.weight v.2) + c.weight size :=
      liveSum_insertLive_of_some hptr id size _
    omega

/-- A live entry is removed. -/
theorem eraseLive (hw : Within c h add sub total) {ptr id size : ℕ}
    (hptr : h.liveAt ptr = some (id, size)) :
    Within c (h.eraseLive ptr) add (sub + c.weight size) total := by
  refine hw.of_le le_rfl ?_ fun _ _ hd => hd
  have hsum : (h.eraseLive ptr).liveSum (fun v => c.weight v.2) + c.weight size =
      h.liveSum fun v => c.weight v.2 := liveSum_eraseLive hptr _
  simp only [held]
  omega

/-- A shard is cleared. -/
theorem clearShard (hw : Within c h add sub total) (i : Fin numShards) :
    Within c (h.clearShard i) add sub total := by
  refine hw.of_le le_rfl ?_ fun _ _ hd => hd
  have := Finset.sum_apply_update (Table.valueSum fun v : ℕ × ℕ => c.weight v.2) h.shards i
    Table.empty
  rw [Table.valueSum_empty] at this
  simp only [held, liveSum, HeapState.clearShard]
  omega

/-- The data are cleared. -/
theorem clearCallsites (hw : Within c h add sub total) :
    Within c h.clearCallsites add sub total :=
  hw.of_le le_rfl le_rfl fun _ _ hd => by cases hd

/-! ### One operation after the other -/

theorem callsiteId (hw : Within c h add sub total) (ips : List ℕ) :
    Within c (h.callsiteId ips).2 add sub total := by
  cases hl : h.lookup ips with
  | some id => rwa [callsiteId_of_some hl]
  | none =>
    rw [callsiteId_of_none hl]
    have hnew := hw.insertCallsite h.nextCallsiteId ips
    exact ⟨hnew.adds, hnew.subs, hnew.upper, hnew.lower⟩

theorem recordSample (hw : Within c h 0 0 total) (ptr size : ℕ) (stack : List ℕ) :
    Within c (h.recordSample ptr size stack) 0 0 (total + c.weight size) := by
  rw [recordSample_eq]
  refine insertLive (((hw.begin (c.weight size)).callsiteId _).updateCallsite _ ?_ le_rfl
    (fun d => ?_) fun d => ?_) ptr _
  · exact Nat.zero_le _
  · rw [Counter.value_sampled]
    omega
  · rw [Counter.value_sampled]
    omega

theorem recordDealloc (hw : Within c h 0 0 total) (ptr size : ℕ) :
    Within c (h.recordDealloc ptr size) 0 0 total := by
  cases hptr : h.liveAt ptr with
  | none => rwa [recordDealloc_of_none hptr]
  | some v =>
    obtain ⟨id, allocSize⟩ := v
    rw [HeapState.recordDealloc, removeLive, hptr]
    refine (hw.eraseLive hptr).updateCallsite id le_rfl (Nat.zero_le _) (fun d => ?_) fun d => ?_
    · have := (c.value_freed allocSize d).2
      omega
    · have := (c.value_freed allocSize d).1
      omega

end Within

end HeapState

namespace Sys

variable {Thread : Type} [DecidableEq Thread] {s s' : Sys Thread} {op : Op Thread} {c : Counter}

omit [DecidableEq Thread] in
theorem within_sampleIf {h h' : HeapState} (hw : h.Within c 0 0 (c.total s.samples))
    (hw' : h'.Within c 0 0 (c.total s.samples)) (sampled : Bool) (ptr size : ℕ) (stack : List ℕ) :
    HeapState.Within c (if sampled then h.recordSample ptr size stack else h') 0 0
      (c.total (addSampleIf sampled size stack s.samples)) := by
  cases sampled with
  | false => exact hw'
  | true =>
    rw [if_pos rfl, addSampleIf, if_pos rfl, Counter.total_cons]
    exact hw.recordSample ptr size stack

/-- One operation. -/
theorem within_step (hw : s.heap.Within c 0 0 (c.total s.samples)) (h : s.step op = some s') :
    s'.heap.Within c 0 0 (c.total s'.samples) := by
  rcases step_heap h with ⟨t, ptr, size, stack, -, -, rfl⟩ | ⟨t, ptr, b, -, -, rfl⟩ |
    ⟨t, ptr, b, newPtr, newSize, stack, -, -, -, rfl⟩ | ⟨-, rfl⟩ | ⟨-, hheap, -, -, hsamples, -⟩
  · rw [heap_afterAlloc]
    exact within_sampleIf hw hw _ ptr size stack
  · rw [heap_afterDealloc]
    split
    · exact hw.recordDealloc ptr b.size
    · exact hw
  · rw [heap_afterRealloc]
    exact within_sampleIf (hw.recordDealloc ptr b.size) hw _ newPtr newSize stack
  · show s.heap.reset.Within c 0 0 0
    rw [HeapState.reset_eq_new]
    exact HeapState.Within.new c
  · rw [hheap, hsamples]
    exact hw

/-- **The counters fit**, whatever was started, stopped, allocated, freed, moved and reset, while
what was sampled since the last reset does. -/
theorem fits_of_reach (on : Bool) (rate : ℕ) (bytesLeft : Thread → ℤ) (sizes : Table ℕ ℕ)
    (h : Machine.Reachable step (init on rate bytesLeft sizes) s)
    (hcount : s.samples.length < 2 ^ 63) (hbytes : (s.samples.map Sample.size).sum < 2 ^ 63)
    (c : Counter) {id : ℕ} {d : CallsiteData} (hd : s.heap.callsites.get? id = some d) :
    c.Fits (c.value d) := by
  have hw : s.heap.Within c 0 0 (c.total s.samples) :=
    h.invariant (HeapState.Within.new c) fun _ _ _ hw _ hstep => within_step hw hstep
  exact c.fits (hw.bounds hd).1 (hw.bounds hd).2 hcount hbytes

end Sys

/-! ### Under threads -/

/-- The counters that the call of `record_sample` has not added to yet. -/
def SampleStep.ahead : SampleStep → Counter → Bool
  | .allocBytes _, c => decide (c ≠ .allocObjects)
  | .inuseObjects _, c => decide (c ≠ .allocObjects ∧ c ≠ .allocBytes)
  | .inuseBytes _, c => decide (c = .inuseBytes)
  | .insert _, _ => false
  | _, _ => true

/-- What the call of `record_dealloc` has removed and not subtracted yet. -/
def RemoveStep.toSub (c : Counter) : RemoveStep → ℕ
  | .remove => 0
  | .find _ size | .inuseObjects _ size => c.weight size
  | .inuseBytes _ size => if c = .inuseBytes then size else 0

/-- What is sampled after it. -/
def After.toSample (c : Counter) : After → ℕ
  | .release => 0
  | .sample _ newSize _ => c.weight newSize

namespace Pc

variable {c : Counter} {h h' : HeapState} {mapFree callsitesFree : Bool} {p p' : Pc} {total : ℕ}

/-- What the thread has still to add to the counter. -/
def toAdd (c : Counter) : Pc → ℕ
  | sampling at_ _ size _ => if at_.ahead c then c.weight size else 0
  | removing _ _ after => after.toSample c
  | _ => 0

/-- What the thread has still to subtract from the counter, or to put into a shard. -/
def toSub (c : Counter) : Pc → ℕ
  | sampling _ _ size _ => c.weight size
  | removing at_ _ after => at_.toSub c + after.toSample c
  | _ => 0

@[simp] theorem toAdd_afterRemoving (c : Counter) (ptr : ℕ) (after : After) :
    (afterRemoving ptr after).toAdd c = after.toSample c := by
  cases after <;> rfl

@[simp] theorem toSub_afterRemoving (c : Counter) (ptr : ℕ) (after : After) :
    (afterRemoving ptr after).toSub c = after.toSample c := by
  cases after <;> rfl

@[simp] theorem toAdd_afterShard (c : Counter) (i : Fin numShards) :
    (afterShard i).toAdd c = 0 := by
  unfold afterShard
  split <;> rfl

@[simp] theorem toSub_afterShard (c : Counter) (i : Fin numShards) :
    (afterShard i).toSub c = 0 := by
  unfold afterShard
  split <;> rfl

/-- **A step inside the profiler**, with `add` and `sub` what the others have still to do. -/
theorem Next.within {add sub : ℕ} (hnext : Next h mapFree callsitesFree p h' p')
    (hw : h.Within c (add + p.toAdd c) (sub + p.toSub c) total) :
    h'.Within c (add + p'.toAdd c) (sub + p'.toSub c) total := by
  cases hnext with
  | lookupHit _ _ | lookupMiss _ _ | entryOccupied _ _ | entryVacant _ _ | findSome _ => exact hw
  | draw | bind => exact ⟨hw.adds, hw.subs, hw.upper, hw.lower⟩
  | clearMap _ | storeNextId => exact ⟨hw.adds, hw.subs, hw.upper, hw.lower⟩
  | fill _ => exact hw.insertCallsite _ _
  | findNone _ =>
    -- nothing is counted
    exact hw.mono (by simp [toAdd, SampleStep.ahead]) le_rfl
  | allocObjects | allocBytes | inuseObjects | inuseBytes =>
    -- the counter that is added to is no longer ahead, and the others are as they were
    refine hw.updateCallsite _ ?_ le_rfl (fun d => ?_) fun d => ?_
    all_goals cases c <;> simp [toAdd, toSub, SampleStep.ahead, Counter.value, Counter.weight,
      CallsiteData.addAllocObjects, CallsiteData.addAllocBytes, CallsiteData.addInuseObjects,
      CallsiteData.addInuseBytes] <;> omega
  | insert => exact hw.insertLive _ _
  | @removeSome ptr after id allocSize hlive =>
    have hremoved := hw.eraseLive hlive
    exact hremoved.mono le_rfl (by simp only [toSub, RemoveStep.toSub]; omega)
  | removeNone _ =>
    rw [toAdd_afterRemoving, toSub_afterRemoving]
    exact hw.mono le_rfl (by simp only [toSub]; omega)
  | settleSome _ => exact hw
  | settleNone _ =>
    -- the data are gone, and nothing is subtracted
    rw [toAdd_afterRemoving, toSub_afterRemoving]
    exact hw.mono le_rfl (by simp only [toSub]; omega)
  | subObjects =>
    refine hw.updateCallsite _ le_rfl ?_ (fun d => ?_) fun d => ?_
    all_goals cases c <;> simp [toAdd, toSub, RemoveStep.toSub, Counter.value, Counter.weight,
      CallsiteData.subInuseObjects] <;> omega
  | subBytes =>
    rw [toAdd_afterRemoving, toSub_afterRemoving]
    refine hw.updateCallsite _ le_rfl ?_ (fun d => ?_) fun d => ?_
    all_goals cases c <;> simp [toAdd, toSub, RemoveStep.toSub, Counter.value,
      CallsiteData.subInuseBytes] <;> omega
  | release => exact hw
  | clearShard =>
    rw [toAdd_afterShard, toSub_afterShard]
    exact hw.clearShard _
  | clearCallsites _ => exact hw.clearCallsites

end Pc

namespace Pool

variable {Thread : Type} [DecidableEq Thread] [Fintype Thread] {s s' : Pool Thread}
  {m : Move Thread} {c : Counter}

/-- The counters, with what all the threads have still to do. -/
def Within (c : Counter) (s : Pool Thread) : Prop :=
  s.heap.Within c (∑ t, (s.pc t).toAdd c) (∑ t, (s.pc t).toSub c) (c.total s.samples)

omit [DecidableEq Thread] in
theorem Within.init (c : Counter) (rate : ℕ) (bytesLeft : Thread → ℤ) (sizes : ℕ → Option ℕ) :
    (init rate bytesLeft sizes).Within c := by
  have hidle : ∀ f : Pc → ℕ, f .idle = 0 → ∑ _t : Thread, f .idle = 0 :=
    fun f hf => Finset.sum_eq_zero fun _ _ => hf
  show HeapState.new.Within c (∑ _t : Thread, Pc.idle.toAdd c) (∑ _t : Thread, Pc.idle.toSub c) 0
  rw [hidle (Pc.toAdd c) rfl, hidle (Pc.toSub c) rfl]
  exact HeapState.Within.new c

/-- What a thread has still to do, and what the others have. -/
theorem exists_others (f : Pc → ℕ) (pc : Thread → Pc) (t : Thread) :
    ∃ others, ∑ j, f (pc j) = others + f (pc t) ∧
      ∀ p', ∑ j, f (Function.update pc t p' j) = others + f p' := by
  have hsum : ∑ j ∈ Finset.univ.erase t, f (pc j) + f (pc t) = ∑ j, f (pc j) :=
    Finset.sum_erase_add _ _ (Finset.mem_univ t)
  refine ⟨_, hsum.symm, fun p' => ?_⟩
  have := Finset.sum_apply_update f pc t p'
  omega

/-- A thread takes one step, or begins an operation. -/
theorem Within.move (hw : s.Within c) {t : Thread} {p' : Pc}
    (hpc : s'.pc = Function.update s.pc t p')
    (hnext : ∀ add sub, s.heap.Within c (add + (s.pc t).toAdd c) (sub + (s.pc t).toSub c)
      (c.total s.samples) →
      s'.heap.Within c (add + p'.toAdd c) (sub + p'.toSub c) (c.total s'.samples)) :
    s'.Within c := by
  obtain ⟨add, hadd, hadd'⟩ := exists_others (Pc.toAdd c) s.pc t
  obtain ⟨sub, hsub, hsub'⟩ := exists_others (Pc.toSub c) s.pc t
  rw [Within, hadd, hsub] at hw
  rw [Within, hpc, hadd', hsub']
  exact hnext add sub hw

/-- **One step of the pool.** -/
theorem Within.step (hw : s.Within c) (h : s.step m = some s') : s'.Within c := by
  cases step_spec h with
  | null | allocUnsampled _ _ => exact hw
  | @beginSampled t ptr size stack hidle _ =>
    refine hw.move rfl fun add sub hw => ?_
    rw [hidle] at hw
    exact (Counter.total_cons ..).symm ▸ hw.begin (c.weight size)
  | beginDealloc hidle _ _ =>
    refine hw.move rfl fun add sub hw => ?_
    rw [hidle] at hw
    exact hw
  | @beginRealloc t ptr newPtr newSize stack cell hidle _ _ _ =>
    refine hw.move rfl fun add sub hw => ?_
    rw [hidle] at hw
    have hbegin := hw.begin (c.weight newSize)
    rw [← Counter.total_cons c ⟨capture stack, newSize⟩] at hbegin
    exact hbegin.mono le_rfl (by simp only [Pc.toSub, RemoveStep.toSub, After.toSample]; omega)
  | beginReset hidle =>
    refine hw.move rfl fun add sub hw => ?_
    rw [hidle] at hw
    exact hw
  | advance hnext => exact hw.move rfl fun add sub hw => hnext.within hw

/-- **The counters fit** in any interleaving of allocations, frees, moves and resets, while what was
sampled does. -/
theorem counters_fit_of_reach (rate : ℕ) (bytesLeft : Thread → ℤ) (sizes : ℕ → Option ℕ)
    (h : Machine.Reachable step (init rate bytesLeft sizes) s)
    (hcount : s.samples.length < 2 ^ 63) (hbytes : (s.samples.map Sample.size).sum < 2 ^ 63)
    (c : Counter) {id : ℕ} {d : CallsiteData} (hd : s.heap.callsites.get? id = some d) :
    c.Fits (c.value d) := by
  have hw : s.Within c :=
    h.invariant (Within.init c rate bytesLeft sizes) fun _ _ _ hw _ hstep => hw.step hstep
  exact c.fits (hw.bounds hd).1 (hw.bounds hd).2 hcount hbytes

/-- A reset takes away the data of a sample that is not counted yet, and its id goes to another
stack; then its block is freed. -/
def resetInsideSample : List (Move Bool) :=
  .alloc false 4096 1024 [7, 8] :: advances false 5 ++ .reset true :: advances true 35 ++
    advances false 2 ++ .alloc true 8192 512 [9, 10] :: advances true 11 ++
    .dealloc false 4096 :: advances false 5

theorem counters_fit_of_reach_resetInsideSample :
    ∃ (s : Pool Bool) (d : CallsiteData),
      Machine.run step (init 512 (fun _ => 0) (fun _ => none)) resetInsideSample = some s ∧
      s.heap.callsites.get? 1 = some d ∧ d.inuseBytes = -512 ∧
      ∀ c : Counter, c.Fits (c.value d) := by
  have hend : (Machine.run step (init 512 (fun _ => 0) (fun _ => none)) resetInsideSample).map
      (fun s : Pool Bool => (s.heap.callsites.get? 1, s.samples)) =
      some (some ⟨[9, 10], 1, 512, 0, -512⟩, [⟨[9, 10], 512⟩, ⟨[7, 8], 1024⟩]) := by
    decide +kernel
  obtain ⟨s, hs, hobs⟩ := Option.map_eq_some_iff.mp hend
  obtain ⟨hd, hsamples⟩ := Prod.mk.inj hobs
  have hreach := Machine.reachable_of_run hs
  exact ⟨s, _, hs, hd, rfl, fun c => counters_fit_of_reach 512 (fun _ => 0) (fun _ => none) hreach
    (by rw [hsamples]; decide) (by rw [hsamples]; decide) c hd⟩

end Pool

end Rpprof
