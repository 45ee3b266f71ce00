import Mathlib.Logic.Function.Basic
import Mathlib.Data.Int.Notation
import Mathlib.Data.Nat.Notation

/-!
# The interval timers

A profiling timer is one of the process's interval timers: the profiling timer for CPU
time, the real-time one for wall-clock time.  It is armed when it is created and
disarmed when it is dropped.

## Main definitions

* `Timer.withClockType`, `Timer.drop`, `Timer.timing` — the code.
* `setitimer`, `Timers.Armed` — the process's two timers.

## Main results

* `Timer.armed_withClockType` — a frequency of at most a million arms the timer.
* `Timer.drop_eq` — and dropping it disarms the same one.
-/

namespace Rpprof

/-- `ClockType`. -/
inductive ClockType where
  | cpu
  | wall
deriving DecidableEq, Repr, Inhabited

/-- The interval timers of a process, by `which`. -/
inductive Which where
  /-- `ITIMER_REAL`, which raises `SIGALRM`. -/
  | real
  /-- `ITIMER_PROF`, which raises `SIGPROF`. -/
  | prof
deriving DecidableEq, Repr

/-- `Timeval`. -/
structure Timeval where
  sec : ℤ
  usec : ℤ
deriving DecidableEq, Repr

/-- `Itimerval`. -/
structure Itimerval where
  interval : Timeval
  value : Timeval
deriving DecidableEq, Repr

/-- Both fields zero: a timer that is not armed. -/
def Timeval.zero : Timeval := ⟨0, 0⟩

/-- What `setitimer` accepts. -/
def Timeval.Valid (t : Timeval) : Prop := 0 ≤ t.sec ∧ 0 ≤ t.usec ∧ t.usec < 1000000

instance (t : Timeval) : Decidable t.Valid :=
  inferInstanceAs (Decidable (0 ≤ t.sec ∧ 0 ≤ t.usec ∧ t.usec < 1000000))

/-- The interval timers of a process. -/
abbrev Timers := Which → Itimerval

/-- `setitimer`: invalid values are refused, and leave the timer as it was. -/
def setitimer (timers : Timers) (which : Which) (v : Itimerval) : Timers :=
  if v.interval.Valid ∧ v.value.Valid then Function.update timers which v else timers

/-- The timer will expire. -/
def Timers.Armed (timers : Timers) (which : Which) : Prop := (timers which).value ≠ Timeval.zero

instance (timers : Timers) (which : Which) : Decidable (timers.Armed which) :=
  inferInstanceAs (Decidable (_ ≠ _))

/-- The timer a clock type is measured by. -/
def ClockType.which : ClockType → Which
  | .cpu => .prof
  | .wall => .real

/-- `Timer`: the clocks it was started at are numbers of microseconds. -/
structure Timer where
  frequency : ℤ
  clockType : ClockType
  startTime : ℕ
  startInstant : ℕ
deriving DecidableEq, Repr

/-- `ReportTiming`. -/
structure ReportTiming where
  frequency : ℤ
  startTime : ℕ
  duration : ℕ
  clockType : ClockType
deriving DecidableEq, Repr

/-- `ReportTiming::default`. -/
instance : Inhabited ReportTiming := ⟨⟨1, 0, 0, .cpu⟩⟩

namespace Timer

/-- The interval of a frequency, in microseconds: an `i64` division, toward zero. -/
def interval (frequency : ℤ) : ℤ := Int.tdiv 1000000 frequency

/-- An interval as `setitimer` wants it. -/
def timeval (frequency : ℤ) : Timeval :=
  ⟨Int.tdiv (interval frequency) 1000000, Int.tmod (interval frequency) 1000000⟩

/-- `Timer::with_clock_type`; `none` is the panic of a division by zero. -/
def withClockType (frequency : ℤ) (clockType : ClockType) (now instant : ℕ) (timers : Timers) :
    Option (Timer × Timers) :=
  if frequency = 0 then none
  else some (⟨frequency, clockType, now, instant⟩,
    setitimer timers clockType.which ⟨timeval frequency, timeval frequency⟩)

/-- `Timer::drop`. -/
def drop (t : Timer) (timers : Timers) : Timers :=
  setitimer timers t.clockType.which ⟨Timeval.zero, Timeval.zero⟩

/-- `Timer::timing`, at a later instant. -/
def timing (t : Timer) (instant : ℕ) : ReportTiming :=
  ⟨t.frequency, t.startTime, instant - t.startInstant, t.clockType⟩

theorem timeval_of_pos {frequency : ℤ} (hpos : 0 < frequency) :
    timeval frequency = ⟨1000000 / frequency / 1000000, 1000000 / frequency % 1000000⟩ := by
  have hdiv : interval frequency = 1000000 / frequency := Int.tdiv_eq_ediv_of_nonneg (by decide)
  have hnonneg : 0 ≤ 1000000 / frequency := Int.ediv_nonneg (by decide) (by omega)
  rw [timeval, hdiv, Int.tdiv_eq_ediv_of_nonneg hnonneg, Int.tmod_eq_emod_of_nonneg hnonneg]

/-- A frequency of at most a million has an interval that is valid and not zero. -/
theorem valid_timeval {frequency : ℤ} (hpos : 0 < frequency) (hle : frequency ≤ 1000000) :
    (timeval frequency).Valid ∧ timeval frequency ≠ Timeval.zero := by
  have hone : 1 ≤ 1000000 / frequency := Int.le_ediv_of_mul_le hpos (by omega)
  rw [timeval_of_pos hpos]
  generalize 1000000 / frequency = n at hone
  constructor
  · refine ⟨?_, ?_, ?_⟩
    · show 0 ≤ n / 1000000
      omega
    · show 0 ≤ n % 1000000
      omega
    · show n % 1000000 < 1000000
      omega
  · intro h
    simp only [Timeval.zero, Timeval.mk.injEq] at h
    omega

/-- **A frequency of at most a million arms its clock's timer**, and no other. -/
theorem armed_withClockType {frequency : ℤ} (hpos : 0 < frequency) (hle : frequency ≤ 1000000)
    (clockType : ClockType) (now instant : ℕ) (timers : Timers) :
    ∃ v, v.value ≠ Timeval.zero ∧ withClockType frequency clockType now instant timers =
      some (⟨frequency, clockType, now, instant⟩, Function.update timers clockType.which v) := by
  obtain ⟨hvalid, hne⟩ := valid_timeval hpos hle
  refine ⟨⟨timeval frequency, timeval frequency⟩, hne, ?_⟩
  have hzero : frequency ≠ 0 := by omega
  rw [withClockType, if_neg hzero, setitimer, if_pos ⟨hvalid, hvalid⟩]

/-- Dropping a timer disarms it, and no other. -/
theorem drop_eq (t : Timer) (timers : Timers) :
    t.drop timers = Function.update timers t.clockType.which ⟨Timeval.zero, Timeval.zero⟩ := by
  have hvalid : Timeval.zero.Valid := by decide
  rw [drop, setitimer, if_pos ⟨hvalid, hvalid⟩]

end Timer

end Rpprof
