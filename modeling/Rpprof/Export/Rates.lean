import Rpprof.Export.Times
import Rpprof.Profiler.Session

/-!
# The rate that is armed and the rate that is stated

A second is divided by the frequency twice: in microseconds, for the timer of the guard, and
in nanoseconds, for the period of its profiles.  Beyond a million samples a second nothing is
left of the interval, and the timer is disarmed; for a negative frequency the interval is
refused, or nothing is left of it either.  The answer of `setitimer` is not looked at, and
the guard is returned.

## Main definitions

* `ProfilerGuard.AtRate` — a guard samples at the frequency, and its profiles say so.

## Main results

* `ProfilerGuard.atRate_iff` — **the frequencies that are sampled at**: from one to a million.
-/

namespace Rpprof

open Protos

/-! ### The interval -/

/-- The whole of an interval, in microseconds. -/
def Timeval.micros (t : Timeval) : ℤ := t.sec * 1000000 + t.usec

/-- An interval that `setitimer` accepts, and that does not disarm the timer. -/
theorem Timeval.micros_pos {t : Timeval} (hvalid : t.Valid) (hne : t ≠ Timeval.zero) :
    0 < t.micros := by
  obtain ⟨sec, usec⟩ := t
  obtain ⟨hsec, husec, -⟩ := hvalid
  rw [Timeval.zero, Ne, Timeval.mk.injEq, not_and_or] at hne
  simp only [Timeval.micros] at hsec husec ⊢
  omega

namespace Timer

/-- The seconds and the microseconds make up the interval, whatever its sign. -/
theorem micros_timeval (frequency : ℤ) : (timeval frequency).micros = interval frequency := by
  show (interval frequency).tdiv 1000000 * 1000000 + (interval frequency).tmod 1000000 = _
  rw [mul_comm, Int.mul_tdiv_add_tmod]

theorem interval_pos_iff {frequency : ℤ} :
    0 < interval frequency ↔ 0 < frequency ∧ frequency ≤ 1000000 := by
  constructor
  · intro hinterval
    by_contra hnot
    rw [not_and_or, not_lt, not_le] at hnot
    have hle : interval frequency ≤ 0 := by
      rcases hnot with hneg | hlarge
      · have hquot : 0 ≤ Int.tdiv 1000000 (-frequency) := Int.tdiv_nonneg (by decide) (by omega)
        rw [Int.tdiv_neg] at hquot
        exact Int.neg_nonneg.mp hquot
      · rw [interval, Int.tdiv_eq_zero_of_lt (by decide) hlarge]
    omega
  · rintro ⟨hpos, hle⟩
    rw [interval, Int.tdiv_eq_ediv_of_nonneg (by decide)]
    exact Int.le_ediv_of_mul_le hpos (by omega)

/-- The microseconds are rounded down a thousand times as coarsely as the nanoseconds. -/
theorem period_sub_interval {frequency : ℤ} (hpos : 0 < frequency) :
    |1000000000 / frequency - 1000 * interval frequency| < 1000 := by
  have hlow := Int.ediv_mul_le 1000000 hpos.ne'
  have hhigh := Int.lt_ediv_add_one_mul_self 1000000 hpos
  rw [interval, Int.tdiv_eq_ediv_of_nonneg (by decide)]
  generalize 1000000 / frequency = q at hlow hhigh
  have hle : 1000 * q ≤ 1000000000 / frequency :=
    Int.le_ediv_of_mul_le hpos (by rw [mul_assoc]; omega)
  have hlt : 1000000000 / frequency < 1000 * (q + 1) :=
    Int.ediv_lt_of_lt_mul hpos (by rw [mul_assoc]; omega)
  rw [abs_lt]
  omega

end Timer

/-! ### The guard -/

section Guard

variable {β : Type} {n : ℕ}

/-- What a builder that returns a guard has passed to `setitimer`. -/
theorem Process.timers_of_build {f : Features} {s s' : Process β n} {b : ProfilerGuardBuilder}
    {a : Answers} {now instant : ℕ} {g : ProfilerGuard}
    (h : s.build f b a now instant = (s', some (.ok g))) :
    s'.timers = setitimer s.timers b.clockType.which
      ⟨Timer.timeval b.frequency, Timer.timeval b.frequency⟩ := by
  have hframe := Process.start_frame (s.configure f b) b.clockType b.threadBlocklist a
  obtain ⟨s₁, hstart, rfl, -⟩ := Process.build_spec h
  rw [hstart] at hframe
  show setitimer s₁.timers _ _ = _
  rw [hframe.1]
  rfl

variable [MemImage β (Entry UnresolvedFrames)]

/-- A guard samples at the frequency of its builder: the timer of its clock is set to an
interval that makes it expire and is that of the frequency, in microseconds, and the period of
the profiles of its reports is less than a microsecond off. -/
structure ProfilerGuard.AtRate (s : Process β n) (b : ProfilerGuardBuilder) (g : ProfilerGuard) :
    Prop where
  valid : (Timer.timeval b.frequency).Valid
  ne_zero : Timer.timeval b.frequency ≠ Timeval.zero
  floor : (Timer.timeval b.frequency).micros = Int.fdiv 1000000 b.frequency
  armed : s.timers b.clockType.which = ⟨Timer.timeval b.frequency, Timer.timeval b.frequency⟩
  period : ∀ (later missed : ℕ) (post : Option (Frames → Frames)) (r : Resolver)
    (profiler : Except Error (Profiler β n)) (report : Report) (demangle : String → String)
    (order : SetOrder) (p : Profile),
    { g.report later with framesPostProcessor := post }.build r profiler missed = .ok report →
    report.pprof demangle order = some p →
    |p.period - 1000 * (Timer.timeval b.frequency).micros| < 1000

namespace ProfilerGuard

/-- **A guard samples at its frequency, if this is from one to a million; and only then.** -/
theorem atRate_iff {f : Features} {s s' : Process β n} {b : ProfilerGuardBuilder} {a : Answers}
    {now instant : ℕ} {g : ProfilerGuard} (h : s.build f b a now instant = (s', some (.ok g))) :
    AtRate s' b g ↔ 0 < b.frequency ∧ b.frequency ≤ 1000000 := by
  rw [← Timer.interval_pos_iff]
  constructor
  · intro hrate
    rw [← Timer.micros_timeval]
    exact Timeval.micros_pos hrate.valid hrate.ne_zero
  · intro hinterval
    obtain ⟨hpos, hle⟩ := Timer.interval_pos_iff.mp hinterval
    obtain ⟨hvalid, hne⟩ := Timer.valid_timeval hpos hle
    refine ⟨hvalid, hne, ?_, ?_, ?_⟩
    · rw [Timer.micros_timeval, Timer.interval, Int.tdiv_eq_ediv_of_nonneg (by decide),
        Int.fdiv_eq_ediv_of_nonneg _ hpos.le]
    · rw [Process.timers_of_build h, setitimer, if_pos ⟨hvalid, hvalid⟩, Function.update_self]
    · intro later missed post r profiler report demangle order p hreport hp
      have hperiod := (Report.pprof_spec hp).period
      rw [frequency_of_build h hreport, i64Div_of_pos hpos (by decide) (by decide),
        Int.tdiv_eq_ediv_of_nonneg (by decide)] at hperiod
      rw [← Option.some.inj hperiod, Timer.micros_timeval]
      exact Timer.period_sub_interval hpos

/-- The default frequency, from a process in which nothing runs. -/
theorem atRate_iff_default :
    letI : MemImage (Entry UnresolvedFrames) (Entry UnresolvedFrames) := MemImage.cell _
    AtRate (Session.idleProcess.build ⟨false, 128⟩ default Answers.ok 0 0).1 default
      ⟨some ⟨99, .cpu, 0, 0⟩⟩ := by
  let _ : MemImage (Entry UnresolvedFrames) (Entry UnresolvedFrames) := MemImage.cell _
  have hbuild : Session.idleProcess.build ⟨false, 128⟩ default Answers.ok 0 0 =
      ((Session.idleProcess.build ⟨false, 128⟩ default Answers.ok 0 0).1,
        some (.ok ⟨some ⟨99, .cpu, 0, 0⟩⟩)) := rfl
  exact (atRate_iff hbuild).mpr (by decide)

/-- Two million samples a second: the guard is returned, and its timer is disarmed. -/
theorem twoMillion_not_atRate :
    letI : MemImage (Entry UnresolvedFrames) (Entry UnresolvedFrames) := MemImage.cell _
    let b : ProfilerGuardBuilder := { (default : ProfilerGuardBuilder) with frequency := 2000000 }
    ∃ s' g, Session.idleProcess.build ⟨false, 128⟩ b Answers.ok 0 0 = (s', some (.ok g)) ∧
      s'.timers .prof = ⟨Timeval.zero, Timeval.zero⟩ ∧ ¬ AtRate s' b g := by
  let _ : MemImage (Entry UnresolvedFrames) (Entry UnresolvedFrames) := MemImage.cell _
  refine ⟨_, ⟨some ⟨2000000, .cpu, 0, 0⟩⟩, rfl, rfl, fun hrate => hrate.ne_zero ?_⟩
  decide

end ProfilerGuard

end Guard

end Rpprof
