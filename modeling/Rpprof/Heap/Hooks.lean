import Rpprof.Heap.Record
import Mathlib.Data.Int.Basic

/-!
# The allocator hooks

`AllocProfiler` around an inner allocator: what `alloc`, `dealloc` and `realloc`
do to the profiler's statics and to the thread's own flag and budget.  The inner
allocator is the environment; its result is an argument, and `0` is null.

## Main definitions

* `Statics`, `Tls` — the process-wide and the thread-local state.
* `Statics.alloc`, `Statics.dealloc`, `Statics.realloc` — the hooks.
* `Tls.spends` — the byte budget runs out with this allocation.

## Main results

* `Statics.heap_alloc`, `Statics.heap_dealloc`, `Statics.heap_realloc` — which of
  the table operations a hook performs.
* `Statics.inAlloc_alloc`, … — every hook leaves the re-entrancy flag as it was.
-/

namespace Rpprof

/-- The statics: `IS_PROFILING`, `SAMPLE_RATE` and `HEAP_STATE`. -/
structure Statics where
  isProfiling : Bool
  sampleRate : ℕ
  heap : HeapState

/-- The thread locals: `IN_ALLOC` and `BYTES_LEFT`. -/
structure Tls where
  inAlloc : Bool
  bytesLeft : ℤ
deriving DecidableEq, Repr

/-- An integer as the 64-bit `isize` it wraps to. -/
def asIsize (x : ℤ) : ℤ := x.bmod (2 ^ 64)

theorem asIsize_eq {x : ℤ} (hlow : -2 ^ 63 ≤ x) (hhigh : x < 2 ^ 63) : asIsize x = x := by
  rw [asIsize, Int.bmod_eq_of_le] <;> omega

namespace Tls

/-- `bytes_left.get() - size as isize`. -/
def remaining (l : Tls) (size : ℕ) : ℤ := asIsize (l.bytesLeft - asIsize size)

/-- The allocation uses the budget up, so it is sampled. -/
def spends (l : Tls) (size : ℕ) : Bool := !l.inAlloc && decide (l.remaining size ≤ 0)

end Tls

namespace Statics

/-- `AllocProfiler::alloc`, where `ptr` is what the inner allocator returned. -/
def alloc (g : Statics) (l : Tls) (ptr size : ℕ) (stack : List ℕ) : Statics × Tls :=
  if ptr = 0 ∨ g.isProfiling = false then (g, l)
  else if l.inAlloc then (g, l)
  else if l.remaining size ≤ 0 then
    -- the flag is set around the recording, and the budget is refilled first
    let l := { l with inAlloc := true }
    let l := { l with bytesLeft := asIsize g.sampleRate }
    let g := { g with heap := g.heap.recordSample ptr size stack }
    (g, { l with inAlloc := false })
  else (g, { l with bytesLeft := l.remaining size })

/-- `AllocProfiler::dealloc`, before the inner allocator takes the block back. -/
def dealloc (g : Statics) (l : Tls) (ptr size : ℕ) : Statics × Tls :=
  if g.isProfiling then
    if !l.inAlloc then
      let l := { l with inAlloc := true }
      let g := { g with heap := g.heap.recordDealloc ptr size }
      (g, { l with inAlloc := false })
    else (g, l)
  else (g, l)

/-- `AllocProfiler::realloc`, where `newPtr` is what the inner allocator returned.
The budget is not consulted: a reallocation is always sampled. -/
def realloc (g : Statics) (l : Tls) (ptr size newPtr newSize : ℕ) (stack : List ℕ) :
    Statics × Tls :=
  if newPtr = 0 ∨ g.isProfiling = false then (g, l)
  else if !l.inAlloc then
    let l := { l with inAlloc := true }
    let g := { g with heap := g.heap.recordDealloc ptr size }
    let g := { g with heap := g.heap.recordSample newPtr newSize stack }
    (g, { l with inAlloc := false })
  else (g, l)

/-- `start`. -/
def start (g : Statics) : Statics := { g with isProfiling := true }

/-- `stop`. -/
def stop (g : Statics) : Statics := { g with isProfiling := false }

/-- `reset`. -/
def reset (g : Statics) : Statics := { g with heap := g.heap.reset }

/-- `set_sample_rate`; a rate of zero is taken as one. -/
def setSampleRate (g : Statics) (rateBytes : ℕ) : Statics :=
  { g with sampleRate := if rateBytes = 0 then 1 else rateBytes }

/-- The hook around a successful `alloc` records a sample. -/
def allocSamples (g : Statics) (l : Tls) (ptr size : ℕ) : Bool :=
  decide (ptr ≠ 0) && g.isProfiling && l.spends size

/-- The hook around a successful `realloc` records a free and a sample. -/
def reallocSamples (g : Statics) (l : Tls) (newPtr : ℕ) : Bool :=
  decide (newPtr ≠ 0) && g.isProfiling && !l.inAlloc

section Hooks

variable (g : Statics) (l : Tls) (ptr size newPtr newSize : ℕ) (stack : List ℕ)

theorem heap_alloc : (g.alloc l ptr size stack).1.heap =
    if g.allocSamples l ptr size then g.heap.recordSample ptr size stack else g.heap := by
  by_cases hskip : ptr = 0 ∨ g.isProfiling = false
  · rw [alloc, if_pos hskip, if_neg]
    rcases hskip with hp | hoff
    · simp [allocSamples, hp]
    · simp [allocSamples, hoff]
  · rw [alloc, if_neg hskip]
    obtain ⟨hp, hon⟩ := not_or.mp hskip
    rw [Bool.not_eq_false] at hon
    cases hin : l.inAlloc with
    | true => simp [allocSamples, Tls.spends, hin]
    | false =>
      by_cases hrem : l.remaining size ≤ 0
      · simp [allocSamples, Tls.spends, hin, hp, hon, hrem]
      · simp [allocSamples, Tls.spends, hin, hp, hon, hrem]

theorem heap_dealloc : (g.dealloc l ptr size).1.heap =
    if g.isProfiling && !l.inAlloc then g.heap.recordDealloc ptr size else g.heap := by
  unfold dealloc
  cases g.isProfiling with
  | false => rfl
  | true => cases l.inAlloc <;> rfl

theorem heap_realloc : (g.realloc l ptr size newPtr newSize stack).1.heap =
    if g.reallocSamples l newPtr then
      (g.heap.recordDealloc ptr size).recordSample newPtr newSize stack
    else g.heap := by
  by_cases hskip : newPtr = 0 ∨ g.isProfiling = false
  · rw [realloc, if_pos hskip, if_neg]
    rcases hskip with hp | hoff
    · simp [reallocSamples, hp]
    · simp [reallocSamples, hoff]
  · rw [realloc, if_neg hskip]
    obtain ⟨hp, hon⟩ := not_or.mp hskip
    rw [Bool.not_eq_false] at hon
    cases hin : l.inAlloc with
    | true => simp [reallocSamples, hin]
    | false => simp [reallocSamples, hin, hp, hon]

@[simp] theorem inAlloc_alloc : (g.alloc l ptr size stack).2.inAlloc = l.inAlloc := by
  unfold alloc
  split
  · rfl
  split
  · rfl
  next hin =>
  split
  · rw [Bool.not_eq_true] at hin
    exact hin.symm
  · rfl

@[simp] theorem inAlloc_dealloc : (g.dealloc l ptr size).2.inAlloc = l.inAlloc := by
  unfold dealloc
  cases g.isProfiling with
  | false => rfl
  | true => cases hin : l.inAlloc <;> simp [hin]

@[simp] theorem inAlloc_realloc :
    (g.realloc l ptr size newPtr newSize stack).2.inAlloc = l.inAlloc := by
  unfold realloc
  split
  · rfl
  · cases hin : l.inAlloc <;> simp [hin]

@[simp] theorem isProfiling_alloc : (g.alloc l ptr size stack).1.isProfiling = g.isProfiling := by
  unfold alloc
  repeat' split
  all_goals rfl

@[simp] theorem isProfiling_dealloc : (g.dealloc l ptr size).1.isProfiling = g.isProfiling := by
  unfold dealloc
  repeat' split
  all_goals rfl

@[simp] theorem isProfiling_realloc :
    (g.realloc l ptr size newPtr newSize stack).1.isProfiling = g.isProfiling := by
  unfold realloc
  repeat' split
  all_goals rfl

@[simp] theorem sampleRate_alloc : (g.alloc l ptr size stack).1.sampleRate = g.sampleRate := by
  unfold alloc
  repeat' split
  all_goals rfl

@[simp] theorem sampleRate_dealloc : (g.dealloc l ptr size).1.sampleRate = g.sampleRate := by
  unfold dealloc
  repeat' split
  all_goals rfl

@[simp] theorem sampleRate_realloc :
    (g.realloc l ptr size newPtr newSize stack).1.sampleRate = g.sampleRate := by
  unfold realloc
  repeat' split
  all_goals rfl

end Hooks

end Statics

end Rpprof
