import Rpprof.Heap.Hooks
import Rpprof.Lib.Machine

/-!
# How often the heap profiler samples

One thread while profiling is on and the rate stays as it was set.  Every allocation spends its
size from the thread's budget, and the one that uses it up is sampled and refills it with the
rate.  A reallocation is sampled without regard to the budget.

## Main definitions

* `Sampling`, `Sampling.step` — the thread, with what it has requested and what was sampled.
* `Sampling.ReallocsIn` — a call reallocates to a size of a given set, if it reallocates.
* `Sampling.ExactPoint` — an allocation is sampled just when a rate's worth has been allocated.

## Main results

* `Sampling.budgeted_of_reach` — the budget pays for the samples, if reallocations do.
* `Sampling.samples_le_iff` — **one sample a rate's worth, exactly if reallocations are that
  large**.
* `Sampling.exact_iff` — **the sampling points are exact for every rate that fits the budget**,
  and for no other.
-/

namespace Rpprof

/-- A successful call, with what the allocator answers and the stack it is made from. -/
inductive HookCall where
  | alloc (ptr size : ℕ) (stack : List ℕ)
  | dealloc (ptr size : ℕ)
  | realloc (ptr size newPtr newSize : ℕ) (stack : List ℕ)
deriving DecidableEq, Repr

namespace HookCall

/-- The call allocates. -/
def isAlloc : HookCall → Bool
  | .alloc .. => true
  | _ => false

/-- The call reallocates. -/
def isRealloc : HookCall → Bool
  | .realloc .. => true
  | _ => false

end HookCall

/-- A thread, and what its calls have come to. -/
structure Sampling where
  statics : Statics
  tls : Tls
  /-- The sizes requested by `alloc` and the new sizes requested by `realloc`. -/
  requested : ℕ
  /-- The calls of `record_sample`. -/
  samples : ℕ
  /-- The sizes allocated since the last of them; nothing before the first. -/
  since : Option ℕ

namespace Sampling

/-- A fresh thread, with the rate that was set. -/
def start (rateBytes : ℕ) (heap : HeapState) : Sampling :=
  ⟨Statics.setSampleRate ⟨true, 512 * 1024, heap⟩ rateBytes, ⟨false, 0⟩, 0, 0, none⟩

/-- After `alloc`. -/
def afterAlloc (s : Sampling) (ptr size : ℕ) (stack : List ℕ) : Sampling where
  statics := (s.statics.alloc s.tls ptr size stack).1
  tls := (s.statics.alloc s.tls ptr size stack).2
  requested := s.requested + size
  samples := s.samples + if s.statics.allocSamples s.tls ptr size then 1 else 0
  since := if s.statics.allocSamples s.tls ptr size then some 0 else s.since.map (· + size)

/-- After `dealloc`. -/
def afterDealloc (s : Sampling) (ptr size : ℕ) : Sampling where
  statics := (s.statics.dealloc s.tls ptr size).1
  tls := (s.statics.dealloc s.tls ptr size).2
  requested := s.requested
  samples := s.samples
  since := s.since

/-- After `realloc`. -/
def afterRealloc (s : Sampling) (ptr size newPtr newSize : ℕ) (stack : List ℕ) : Sampling where
  statics := (s.statics.realloc s.tls ptr size newPtr newSize stack).1
  tls := (s.statics.realloc s.tls ptr size newPtr newSize stack).2
  requested := s.requested + newSize
  samples := s.samples + if s.statics.reallocSamples s.tls newPtr then 1 else 0
  since := if s.statics.reallocSamples s.tls newPtr then some 0 else s.since

/-- One successful call; the sizes are those of valid layouts. -/
def step (s : Sampling) : HookCall → Option Sampling
  | .alloc ptr size stack =>
    if ptr ≠ 0 ∧ size < 2 ^ 63 then some (s.afterAlloc ptr size stack) else none
  | .dealloc ptr size => some (s.afterDealloc ptr size)
  | .realloc ptr size newPtr newSize stack =>
    if newPtr ≠ 0 ∧ newSize < 2 ^ 63 then some (s.afterRealloc ptr size newPtr newSize stack)
    else none

/-! ### What a call does -/

/-- Profiling is on, no hook is running, and the rate is `rate`. -/
structure On (rate : ℕ) (s : Sampling) : Prop where
  isProfiling : s.statics.isProfiling = true
  inAlloc : s.tls.inAlloc = false
  sampleRate : s.statics.sampleRate = rate

section Calls

variable {rate : ℕ} {s s' : Sampling} {call : HookCall}

/-- What a call can do: the whole of it, guards included. -/
theorem step_cases (h : s.step call = some s') :
    (∃ ptr size stack, call = .alloc ptr size stack ∧ ptr ≠ 0 ∧ size < 2 ^ 63 ∧
      s' = s.afterAlloc ptr size stack) ∨
    (∃ ptr size, call = .dealloc ptr size ∧ s' = s.afterDealloc ptr size) ∨
    (∃ ptr size newPtr newSize stack, call = .realloc ptr size newPtr newSize stack ∧
      newPtr ≠ 0 ∧ newSize < 2 ^ 63 ∧ s' = s.afterRealloc ptr size newPtr newSize stack) := by
  cases call with
  | alloc ptr size stack =>
    rw [step, Option.ite_none_right_eq_some, Option.some.injEq] at h
    exact Or.inl ⟨ptr, size, stack, rfl, h.1.1, h.1.2, h.2.symm⟩
  | dealloc ptr size =>
    rw [step, Option.some.injEq] at h
    exact Or.inr (Or.inl ⟨ptr, size, rfl, h.symm⟩)
  | realloc ptr size newPtr newSize stack =>
    rw [step, Option.ite_none_right_eq_some, Option.some.injEq] at h
    exact Or.inr (Or.inr ⟨ptr, size, newPtr, newSize, stack, rfl, h.1.1, h.1.2, h.2.symm⟩)

theorem on_start (rateBytes : ℕ) (heap : HeapState) :
    On (if rateBytes = 0 then 1 else rateBytes) (start rateBytes heap) := ⟨rfl, rfl, rfl⟩

/-- Every call leaves the flag and the rate alone. -/
theorem On.step (hs : On rate s) (h : s.step call = some s') : On rate s' := by
  obtain ⟨ptr, size, stack, -, -, -, rfl⟩ | ⟨ptr, size, -, rfl⟩ |
    ⟨ptr, size, newPtr, newSize, stack, -, -, -, rfl⟩ := step_cases h
  · exact ⟨by simp [afterAlloc, hs.isProfiling], by simp [afterAlloc, hs.inAlloc],
      by simp [afterAlloc, hs.sampleRate]⟩
  · exact ⟨by simp [afterDealloc, hs.isProfiling], by simp [afterDealloc, hs.inAlloc],
      by simp [afterDealloc, hs.sampleRate]⟩
  · exact ⟨by simp [afterRealloc, hs.isProfiling], by simp [afterRealloc, hs.inAlloc],
      by simp [afterRealloc, hs.sampleRate]⟩

/-- An allocation is sampled when what remains of the budget is not positive. -/
theorem allocSamples_iff (hs : On rate s) {ptr : ℕ} (hptr : ptr ≠ 0) (size : ℕ) :
    s.statics.allocSamples s.tls ptr size = true ↔ s.tls.remaining size ≤ 0 := by
  simp [Statics.allocSamples, Tls.spends, hptr, hs.isProfiling, hs.inAlloc]

/-- The budget after an allocation: refilled, or what remains of it. -/
theorem bytesLeft_afterAlloc (hs : On rate s) {ptr : ℕ} (hptr : ptr ≠ 0) (size : ℕ)
    (stack : List ℕ) : (s.afterAlloc ptr size stack).tls.bytesLeft =
      if s.tls.remaining size ≤ 0 then asIsize rate else s.tls.remaining size := by
  have hskip : ¬(ptr = 0 ∨ s.statics.isProfiling = false) := by
    rw [hs.isProfiling]
    simpa using hptr
  rw [afterAlloc, Statics.alloc, if_neg hskip, hs.inAlloc, if_neg Bool.false_ne_true,
    hs.sampleRate]
  by_cases hzero : s.tls.remaining size ≤ 0
  · rw [if_pos hzero, if_pos hzero]
  · rw [if_neg hzero, if_neg hzero]

theorem samples_afterAlloc (s : Sampling) (ptr size : ℕ) (stack : List ℕ) :
    (s.afterAlloc ptr size stack).samples =
      s.samples + if s.statics.allocSamples s.tls ptr size then 1 else 0 := rfl

theorem since_afterAlloc (s : Sampling) (ptr size : ℕ) (stack : List ℕ) :
    (s.afterAlloc ptr size stack).since =
      if s.statics.allocSamples s.tls ptr size then some 0 else s.since.map (· + size) := rfl

@[simp] theorem bytesLeft_afterDealloc (s : Sampling) (ptr size : ℕ) :
    (s.afterDealloc ptr size).tls.bytesLeft = s.tls.bytesLeft := by
  rw [afterDealloc, Statics.dealloc]
  repeat' split
  all_goals rfl

@[simp] theorem bytesLeft_afterRealloc (s : Sampling) (ptr size newPtr newSize : ℕ)
    (stack : List ℕ) :
    (s.afterRealloc ptr size newPtr newSize stack).tls.bytesLeft = s.tls.bytesLeft := by
  rw [afterRealloc, Statics.realloc]
  repeat' split
  all_goals rfl

theorem samples_afterRealloc (hs : On rate s) {newPtr : ℕ} (hptr : newPtr ≠ 0)
    (ptr size newSize : ℕ) (stack : List ℕ) :
    (s.afterRealloc ptr size newPtr newSize stack).samples = s.samples + 1 := by
  have hsamples : s.statics.reallocSamples s.tls newPtr = true := by
    simp [Statics.reallocSamples, hptr, hs.isProfiling, hs.inAlloc]
  rw [afterRealloc, hsamples, if_pos rfl]

/-- Small numbers are what they are in `isize`. -/
theorem remaining_eq {l : Tls} {size : ℕ} (hsize : size < 2 ^ 63) (hlow : 0 ≤ l.bytesLeft)
    (hhigh : l.bytesLeft < 2 ^ 63) : l.remaining size = l.bytesLeft - size := by
  rw [Tls.remaining, asIsize_eq (x := size) (by omega) (by omega), asIsize_eq]
  · omega
  · omega

end Calls

/-! ### The sampling budget -/

/-- The call reallocates to one of the sizes, if it reallocates. -/
def ReallocsIn (sizes : Set ℕ) (_ : Sampling) : HookCall → Prop
  | .realloc _ _ _ newSize _ => newSize ∈ sizes
  | _ => True

section Budget

variable {rate : ℕ} {s s' : Sampling} {call : HookCall} {sizes : Set ℕ}

/-- What was requested and what is left of the budget pay for the samples. -/
structure Budgeted (rate : ℕ) (s : Sampling) : Prop extends On rate s where
  nonneg : 0 ≤ s.tls.bytesLeft
  le_rate : s.tls.bytesLeft ≤ rate
  paid : (rate : ℤ) * s.samples ≤ s.requested + s.tls.bytesLeft

theorem budgeted_start (hrate : rate ≠ 0) (heap : HeapState) :
    Budgeted rate (start rate heap) where
  toOn := by
    have hon := on_start rate heap
    rwa [if_neg hrate] at hon
  nonneg := le_rfl
  le_rate := Int.natCast_nonneg rate
  paid := by simp [start]

/-- Every call keeps the books, if a reallocation requests a rate's worth. -/
theorem Budgeted.step (hmax : rate < 2 ^ 63) (hs : Budgeted rate s)
    (hsizes : ∀ n ∈ sizes, n < 2 ^ 63 → rate ≤ n) (hcall : ReallocsIn sizes s call)
    (h : s.step call = some s') : Budgeted rate s' := by
  have hon := hs.toOn.step h
  obtain ⟨hnonneg, hle, hpaid⟩ := And.intro hs.nonneg (And.intro hs.le_rate hs.paid)
  obtain ⟨ptr, size, stack, -, hptr, hsize, rfl⟩ | ⟨ptr, size, -, rfl⟩ |
    ⟨ptr, size, newPtr, newSize, stack, rfl, hptr, hsize, rfl⟩ := step_cases h
  · have hremaining := remaining_eq hsize hnonneg (by omega)
    have hleft := bytesLeft_afterAlloc hs.toOn hptr size stack
    have hsampled := allocSamples_iff hs.toOn hptr size
    by_cases hzero : s.tls.remaining size ≤ 0
    · -- sampled: the budget is spent, and there is a new one
      have hsamples : (s.afterAlloc ptr size stack).samples = s.samples + 1 := by
        rw [samples_afterAlloc, if_pos (hsampled.mpr hzero)]
      rw [if_pos hzero, asIsize_eq (by omega) (by omega)] at hleft
      refine ⟨hon, by omega, by omega, ?_⟩
      have hrequested : (s.afterAlloc ptr size stack).requested = s.requested + size := rfl
      rw [hsamples, hleft, hrequested]
      push_cast
      rw [mul_add, mul_one]
      omega
    · have hsamples : (s.afterAlloc ptr size stack).samples = s.samples := by
        rw [samples_afterAlloc, if_neg (hsampled.not.mpr hzero), Nat.add_zero]
      rw [if_neg hzero] at hleft
      refine ⟨hon, by omega, by omega, ?_⟩
      have hrequested : (s.afterAlloc ptr size stack).requested = s.requested + size := rfl
      rw [hsamples, hleft, hrequested]
      push_cast
      omega
  · exact ⟨hon, by rwa [bytesLeft_afterDealloc], by rwa [bytesLeft_afterDealloc],
      by rwa [bytesLeft_afterDealloc]⟩
  · -- sampled in any case: what was requested has to pay for it
    have hlarge : rate ≤ newSize := hsizes newSize hcall hsize
    have hrequested : (s.afterRealloc ptr size newPtr newSize stack).requested =
      s.requested + newSize := rfl
    refine ⟨hon, by rwa [bytesLeft_afterRealloc], by rwa [bytesLeft_afterRealloc], ?_⟩
    rw [samples_afterRealloc hs.toOn hptr, bytesLeft_afterRealloc, hrequested]
    push_cast
    rw [mul_add, mul_one]
    omega

/-- **The budget pays for the samples**, along every run whose reallocations do. -/
theorem budgeted_of_reach (hrate : rate ≠ 0) (hmax : rate < 2 ^ 63) {heap : HeapState}
    (hsizes : ∀ n ∈ sizes, n < 2 ^ 63 → rate ≤ n)
    (h : Machine.Reach step (ReallocsIn sizes) (start rate heap) s) : Budgeted rate s :=
  h.invariant (budgeted_start hrate heap) fun _ _ _ hs hcall hstep =>
    hs.step hmax hsizes hcall hstep

/-- One sample a rate's worth, and one for what is left. -/
theorem Budgeted.samples_le (hrate : rate ≠ 0) (hs : Budgeted rate s) :
    s.samples ≤ 1 + s.requested / rate := by
  have hpaid := hs.paid.trans (Int.add_le_add_left hs.le_rate _)
  have hnat : rate * s.samples ≤ s.requested + rate := by exact_mod_cast hpaid
  rw [Nat.add_comm, ← Nat.add_div_right _ (Nat.pos_of_ne_zero hrate),
    Nat.le_div_iff_mul_le (Nat.pos_of_ne_zero hrate), Nat.mul_comm]
  exact hnat

/-- Reallocations to less than the rate, over and over. -/
theorem exists_reach_reallocs {n : ℕ} (hn : n ∈ sizes) (hmax : n < 2 ^ 63) (heap : HeapState)
    (hrate : rate ≠ 0) (k : ℕ) :
    ∃ s, Machine.Reach step (ReallocsIn sizes) (start rate heap) s ∧ On rate s ∧
      s.samples = k ∧ s.requested = k * n := by
  induction k with
  | zero => exact ⟨_, .refl, (budgeted_start hrate heap).toOn, rfl, by simp [start]⟩
  | succ k ih =>
    obtain ⟨s, hreach, hon, hsamples, hrequested⟩ := ih
    have hstep : s.step (.realloc 16 n 16 n []) = some (s.afterRealloc 16 n 16 n []) :=
      if_pos ⟨by decide, hmax⟩
    have hcall : ReallocsIn sizes s (.realloc 16 n 16 n []) := hn
    refine ⟨_, .tail hreach hcall hstep, hon.step hstep, ?_, ?_⟩
    · rw [samples_afterRealloc hon (by decide), hsamples]
    · rw [Nat.succ_mul, ← hrequested]
      rfl

/-- **There is at most one sample a rate's worth, and one more, in every run if and only if
reallocations are to no less than the rate.** -/
theorem samples_le_iff (hrate : 1 ≤ rate) (hmax : rate < 2 ^ 63) (heap : HeapState)
    (sizes : Set ℕ) :
    (∀ s, Machine.Reach step (ReallocsIn sizes) (start rate heap) s →
      s.samples ≤ 1 + s.requested / rate) ↔ ∀ n ∈ sizes, n < 2 ^ 63 → rate ≤ n := by
  have hne : rate ≠ 0 := by omega
  constructor
  · intro h n hn hn_max
    by_contra hlt
    rw [not_le] at hlt
    obtain ⟨s, hreach, -, hsamples, hrequested⟩ :=
      exists_reach_reallocs hn hn_max heap hne (2 * rate)
    have hle := h s hreach
    -- at most one a unit of the rate, were it so
    have hdiv : 2 * rate * n / rate = 2 * n := by
      rw [Nat.mul_right_comm, Nat.mul_div_cancel _ (by omega)]
    rw [hsamples, hrequested, hdiv] at hle
    omega
  · intro hsizes s hreach
    exact (budgeted_of_reach hne hmax hsizes hreach).samples_le hne

end Budget

/-- Reallocations to 512 bytes and more, at a rate of 512 bytes. -/
theorem samples_le_rate :
    ∃ s, Machine.run step (start 512 HeapState.new)
        [.alloc 16 8 [], .realloc 16 8 16 512 [], .realloc 16 512 16 1024 []] = some s ∧
      s.requested = 1544 ∧ s.samples = 3 ∧ s.samples ≤ 1 + s.requested / 512 := by
  have hrun : (Machine.run step (start 512 HeapState.new)
      [.alloc 16 8 [], .realloc 16 8 16 512 [], .realloc 16 512 16 1024 []]).map
        (fun s => (s.requested, s.samples)) = some (1544, 3) := by decide +kernel
  obtain ⟨s, hs, hobs⟩ := Option.map_eq_some_iff.mp hrun
  obtain ⟨hrequested, hsamples⟩ := Prod.mk.inj hobs
  have hreach : Machine.Reach step (ReallocsIn {n | 512 ≤ n}) (start 512 HeapState.new) s := by
    refine Machine.Reach.of_run (fun _ => ?_) hs
    simp only [List.forall_mem_cons, ReallocsIn, Set.mem_ofPred_eq]
    simp
  exact ⟨s, hs, hrequested, hsamples,
    (samples_le_iff (by decide) (by decide) HeapState.new {n | 512 ≤ n}).mpr (fun _ hn _ => hn) s
      hreach⟩

/-- A block of 8 bytes is allocated and grows three times: 120 bytes in all, and four samples. -/
theorem grow_exceeds_budget : ∃ s, Machine.run step (start 512 HeapState.new)
      [.alloc 16 8 [], .realloc 16 8 16 16 [], .realloc 16 16 16 32 [],
        .realloc 16 32 16 64 []] = some s ∧
    s.requested = 120 ∧ s.samples = 4 ∧ ¬s.samples ≤ 1 + s.requested / 512 := by
  refine ⟨_, rfl, by decide +kernel, by decide +kernel, by decide +kernel⟩

/-! ### The sampling points of `alloc` -/

/-- An allocation is sampled if and only if it is the first or a rate's worth has been allocated
since the last sample, and the budget does not overflow. -/
def ExactPoint (s : Sampling) : HookCall → Prop
  | .alloc ptr size _ =>
    (s.statics.allocSamples s.tls ptr size = true ↔
      s.since = none ∨ ∃ total, s.since = some total ∧ s.statics.sampleRate ≤ total + size) ∧
    -2 ^ 63 ≤ s.tls.bytesLeft - size ∧ s.tls.bytesLeft - size < 2 ^ 63
  | _ => True

@[simp] theorem exactPoint_dealloc (s : Sampling) (ptr size : ℕ) :
    ExactPoint s (.dealloc ptr size) := trivial

section Exact

variable {rate : ℕ} {s s' : Sampling} {call : HookCall} {calls : List HookCall}

/-- What is left of the budget is what is still to be allocated until the next sample. -/
structure Counting (rate : ℕ) (s : Sampling) : Prop extends On rate s where
  left : (s.since = none ∧ s.tls.bytesLeft = 0) ∨
    ∃ total : ℕ, s.since = some total ∧ total < rate ∧ s.tls.bytesLeft = rate - total

/-- **With a rate that fits the budget, every sampling point is exact.** -/
theorem Counting.step (hpos : 0 < rate) (hmax : rate < 2 ^ 63) (hs : Counting rate s)
    (hcall : call.isRealloc = false) (h : s.step call = some s') :
    ExactPoint s call ∧ Counting rate s' := by
  have hon := hs.toOn.step h
  obtain ⟨ptr, size, stack, rfl, hptr, hsize, rfl⟩ | ⟨ptr, size, rfl, rfl⟩ |
    ⟨ptr, size, newPtr, newSize, stack, rfl, -, -, -⟩ := step_cases h
  · have hbounds : 0 ≤ s.tls.bytesLeft ∧ s.tls.bytesLeft ≤ rate := by
      rcases hs.left with ⟨-, hzero⟩ | ⟨total, -, hlt, hleft⟩ <;> omega
    have hremaining := remaining_eq hsize hbounds.1 (by omega)
    have hleft := bytesLeft_afterAlloc hs.toOn hptr size stack
    have hsampled := allocSamples_iff hs.toOn hptr size
    -- the budget is spent just when the sizes reach the rate
    have hpoint : s.tls.remaining size ≤ 0 ↔
        s.since = none ∨ ∃ total, s.since = some total ∧ s.statics.sampleRate ≤ total + size := by
      rw [hremaining, hs.sampleRate]
      rcases hs.left with ⟨hnone, hzero⟩ | ⟨total, hsome, hlt, htotal⟩
      · exact ⟨fun _ => Or.inl hnone, fun _ => by omega⟩
      · simp only [hsome, reduceCtorEq, false_or, Option.some.injEq, exists_eq_left']
        omega
    refine ⟨⟨hsampled.trans hpoint, by omega, by omega⟩, hon, Or.inr ?_⟩
    by_cases hzero : s.tls.remaining size ≤ 0
    · rw [if_pos hzero, asIsize_eq (by omega) (by omega)] at hleft
      refine ⟨0, ?_, hpos, by omega⟩
      rw [since_afterAlloc, if_pos (hsampled.mpr hzero)]
    · rw [if_neg hzero, hremaining] at hleft
      rcases hs.left with ⟨hnone, -⟩ | ⟨total, hsome, hlt, htotal⟩
      · exact absurd (hpoint.mpr (Or.inl hnone)) hzero
      · refine ⟨total + size, ?_, by omega, by omega⟩
        rw [since_afterAlloc, if_neg (hsampled.not.mpr hzero), hsome, Option.map_some]
  · exact ⟨trivial, hon, by rw [bytesLeft_afterDealloc]; exact hs.left⟩
  · cases hcall

/-- The budget is refilled with a rate too large for it. -/
theorem asIsize_rate (hmin : 2 ^ 63 ≤ rate) (hmax : rate < 2 ^ 64) :
    asIsize rate = rate - 2 ^ 64 := by
  rw [asIsize, Int.bmod_def]
  omega

/-- Once refilled so, the budget has the next allocation sampled, if it can be counted at all. -/
theorem not_exact_of_refilled (hmin : 2 ^ 63 ≤ rate) (hmax : rate < 2 ^ 64) (hon : On rate s)
    (hsince : s.since = some 0) (hleft : s.tls.bytesLeft = rate - 2 ^ 64) {ptr size : ℕ}
    (hptr : ptr ≠ 0) (hsize : size < 2 ^ 63) (stack : List ℕ) :
    ¬ExactPoint s (.alloc ptr size stack) := by
  rintro ⟨hpoint, hlow, hhigh⟩
  have hremaining : s.tls.remaining size = s.tls.bytesLeft - size := by
    rw [Tls.remaining, asIsize_eq (x := size) (by omega) (by omega), asIsize_eq hlow hhigh]
  rw [allocSamples_iff hon hptr, hremaining, hsince, hon.sampleRate] at hpoint
  rcases hpoint.mp (by omega) with hnone | ⟨total, htotal, hreached⟩
  · cases hnone
  · rw [Option.some.injEq] at htotal
    omega

/-- After a sample, no more allocations are exact. -/
theorem throughout_refilled_iff (hmin : 2 ^ 63 ≤ rate) (hmax : rate < 2 ^ 64)
    (hcalls : ∀ call ∈ calls, call.isRealloc = false) : ∀ {s : Sampling}, On rate s →
      s.since = some 0 → s.tls.bytesLeft = rate - 2 ^ 64 → (Machine.run step s calls).isSome →
      (Machine.Throughout step ExactPoint s calls ↔ calls.countP HookCall.isAlloc = 0) := by
  induction calls with
  | nil => exact fun _ _ _ _ => ⟨fun _ => rfl, fun _ => trivial⟩
  | cons call calls ih =>
    intro s hon hsince hleft hrun
    rw [List.forall_mem_cons] at hcalls
    rw [Machine.run_cons, Option.isSome_bind, Option.any_eq_true] at hrun
    obtain ⟨s', hstep, hrun⟩ := hrun
    have hon' := hon.step hstep
    rw [Machine.throughout_cons hstep]
    obtain ⟨ptr, size, stack, rfl, hptr, hsize, rfl⟩ | ⟨ptr, size, rfl, rfl⟩ |
      ⟨ptr, size, newPtr, newSize, stack, rfl, -, -, -⟩ := step_cases hstep
    · have hnot := not_exact_of_refilled hmin hmax hon hsince hleft hptr hsize stack
      rw [List.countP_cons_of_pos rfl]
      exact ⟨fun h => absurd h.1 hnot, fun h => absurd h (Nat.succ_ne_zero _)⟩
    · rw [and_iff_right (exactPoint_dealloc s ptr size),
        ih hcalls.2 hon' hsince (by rwa [bytesLeft_afterDealloc]) hrun,
        List.countP_cons_of_neg (by simp [HookCall.isAlloc])]
    · cases hcalls.1

/-- Before the first sample, one allocation is. -/
theorem throughout_fresh_iff (hmin : 2 ^ 63 ≤ rate) (hmax : rate < 2 ^ 64)
    (hcalls : ∀ call ∈ calls, call.isRealloc = false) : ∀ {s : Sampling}, On rate s →
      s.since = none → s.tls.bytesLeft = 0 → (Machine.run step s calls).isSome →
      (Machine.Throughout step ExactPoint s calls ↔ calls.countP HookCall.isAlloc ≤ 1) := by
  induction calls with
  | nil => exact fun _ _ _ _ => ⟨fun _ => Nat.zero_le 1, fun _ => trivial⟩
  | cons call calls ih =>
    intro s hon hsince hleft hrun
    rw [List.forall_mem_cons] at hcalls
    rw [Machine.run_cons, Option.isSome_bind, Option.any_eq_true] at hrun
    obtain ⟨s', hstep, hrun⟩ := hrun
    have hon' := hon.step hstep
    rw [Machine.throughout_cons hstep]
    obtain ⟨ptr, size, stack, rfl, hptr, hsize, rfl⟩ | ⟨ptr, size, rfl, rfl⟩ |
      ⟨ptr, size, newPtr, newSize, stack, rfl, -, -, -⟩ := step_cases hstep
    · have hremaining := remaining_eq hsize hleft.ge (by omega)
      have hzero : s.tls.remaining size ≤ 0 := by omega
      have hsampled := (allocSamples_iff hon hptr size).mpr hzero
      have hrefilled := bytesLeft_afterAlloc hon hptr size stack
      rw [if_pos hzero, asIsize_rate hmin hmax] at hrefilled
      have hexact : ExactPoint s (.alloc ptr size stack) :=
        ⟨⟨fun _ => Or.inl hsince, fun _ => hsampled⟩, by omega, by omega⟩
      rw [and_iff_right hexact, throughout_refilled_iff hmin hmax hcalls.2 hon'
        (by rw [since_afterAlloc, if_pos hsampled]) hrefilled hrun, List.countP_cons_of_pos rfl]
      omega
    · rw [and_iff_right (exactPoint_dealloc s ptr size),
        ih hcalls.2 hon' hsince (by rwa [bytesLeft_afterDealloc]) hrun,
        List.countP_cons_of_neg (by simp [HookCall.isAlloc])]
    · cases hcalls.1

/-- **Every allocation is sampled exactly where it should be if and only if the rate fits the
budget**, or there is at most one allocation. -/
theorem exact_iff {rateBytes : ℕ} (hrate : rateBytes < 2 ^ 64) (heap : HeapState)
    (hcalls : ∀ call ∈ calls, call.isRealloc = false)
    (hrun : (Machine.run step (start rateBytes heap) calls).isSome) :
    Machine.Throughout step ExactPoint (start rateBytes heap) calls ↔
      rateBytes < 2 ^ 63 ∨ calls.countP HookCall.isAlloc ≤ 1 := by
  have hon := on_start rateBytes heap
  by_cases hmax : rateBytes < 2 ^ 63
  · rw [iff_true_right (Or.inl hmax)]
    refine Machine.throughout_of_invariant (I := Counting (if rateBytes = 0 then 1 else rateBytes))
      (fun s call hcall s' hs hstep => hs.step ?_ ?_ (hcalls call hcall) hstep) _
      ⟨hon, Or.inl ⟨rfl, rfl⟩⟩
    · split <;> omega
    · split <;> omega
  · rw [or_iff_right hmax]
    rw [if_neg (by omega)] at hon
    exact throughout_fresh_iff (not_lt.mp hmax) hrate hcalls hon rfl rfl hrun

end Exact

/-- Two allocations and a free between them, at a rate of two bytes. -/
theorem exact_of_rate : Machine.Throughout step ExactPoint (start 2 HeapState.new)
    [.alloc 16 1 [], .dealloc 16 1, .alloc 16 1 []] :=
  (exact_iff (by decide) HeapState.new (by decide) (by decide +kernel)).mpr (Or.inl (by decide))

/-- The largest rate asks for no more samples; every allocation is one. -/
theorem not_exact_largest_rate :
    (∃ s, Machine.run step (start (2 ^ 64 - 1) HeapState.new)
      [.alloc 16 8 [], .alloc 32 8 [], .alloc 48 8 []] = some s ∧ s.requested = 24 ∧
      s.samples = 3) ∧
    ¬Machine.Throughout step ExactPoint (start (2 ^ 64 - 1) HeapState.new)
      [.alloc 16 8 [], .alloc 32 8 [], .alloc 48 8 []] := by
  refine ⟨⟨_, rfl, by decide +kernel, by decide +kernel⟩, fun h => ?_⟩
  have hon : On (2 ^ 64 - 1) (start (2 ^ 64 - 1) HeapState.new) := ⟨rfl, rfl, rfl⟩
  have hallocs := (throughout_fresh_iff (by decide) (by decide) (by decide) hon rfl rfl
    (by decide +kernel)).mp h
  exact absurd hallocs (by decide)

end Sampling

end Rpprof
