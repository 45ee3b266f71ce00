import Rpprof.Export.Pprof

/-!
# Times in profiles

A profile states for each count the time it stands for, and a period, both worked out from
the frequency of the report.  The reports there are have it from the timer of a guard, or,
converted from heap reports, from the sampling rate in bytes cut to 32 bits; and their counts
are counts of ticks or totals of bytes.

## Main definitions

* `Produced` — the reports of the crate, with the rate they were collected at.
* `Report.ExactTimes` — the times and the period are exact, and worked out at all.

## Main results

* `Produced.exactTimes_iff` — **when they are**: for a positive rate of at most 31 bits and
  counts whose times fit 63.
-/

namespace Rpprof

open Protos

/-- What the crate reports, and the rate it was collected at. -/
inductive Produced (β : Type) (n : ℕ) [MemImage β (Entry UnresolvedFrames)] : Report → ℤ → Prop
  /-- `ReportBuilder::build` under a guard, for a frequency that is a `c_int`. -/
  | build {f : Features} {s s' : Process β n} {b : ProfilerGuardBuilder} {a : Answers}
      {now instant later missed : ℕ} {g : ProfilerGuard} {post : Option (Frames → Frames)}
      {r : Resolver} {profiler : Except Error (Profiler β n)} {report : Report}
      (hguard : s.build f b a now instant = (s', some (.ok g)))
      (hfrequency : -2 ^ 31 ≤ b.frequency ∧ b.frequency < 2 ^ 31)
      (hreport : { g.report later with framesPostProcessor := post }.build r profiler missed =
        .ok report) : Produced β n report b.frequency
  /-- `to_inuse_report`, for a rate that `set_sample_rate` has stored. -/
  | inuse {g : Statics} {rateBytes : ℕ} {heap : HeapReport} (hrate : rateBytes < 2 ^ 64)
      (hstored : heap.sampleRate = (g.setSampleRate rateBytes).sampleRate)
      (hbytes : ∀ rec ∈ heap.records, rec.inuseBytes < 2 ^ 63) :
      Produced β n heap.toInuseReport heap.sampleRate
  /-- `to_alloc_report`, for totals of at most `isize::MAX`. -/
  | alloc {g : Statics} {rateBytes : ℕ} {heap : HeapReport} (hrate : rateBytes < 2 ^ 64)
      (hstored : heap.sampleRate = (g.setSampleRate rateBytes).sampleRate)
      (hbytes : ∀ rec ∈ heap.records, rec.allocBytes < 2 ^ 63) :
      Produced β n heap.toAllocReport heap.sampleRate

/-- The frequency is the positive rate of collection, and times and period are worked out
from it without a panic, rounded down. -/
structure Report.ExactTimes (demangle : String → String) (order : SetOrder) (report : Report)
    (rate : ℤ) : Prop where
  frequency : report.timing.frequency = rate
  positive : 0 < rate
  exact : ∃ p, report.pprof demangle order = some p ∧ p.period = 1000000000 / rate ∧
    List.Forall₂ (fun e smp => smp.value[1]? = some (e.2 * 1000000000 / rate) ∧
      0 ≤ e.2 * 1000000000 / rate) report.data.entries p.sample

/-! ### What is produced -/

/-- A positive number is its own low 32 bits, as an `i32`, up to 31 bits. -/
theorem asI32_eq_iff {x : ℤ} (hx : 0 < x) : asI32 x = x ↔ x < 2 ^ 31 := by
  constructor
  · intro h
    have hlt : x.bmod (2 ^ 32) < (2 ^ 32 + 1) / 2 := Int.bmod_lt (by decide)
    rw [asI32] at h
    omega
  · intro h
    rw [asI32]
    exact Int.bmod_eq_of_le (by omega) (by omega)

/-- What a builder returns has its timing, and positive counts. -/
theorem ReportBuilder.build_ok {β : Type} {n : ℕ} [MemImage β (Entry UnresolvedFrames)]
    {b : ReportBuilder} {r : Resolver} {profiler : Except Error (Profiler β n)} {missed : ℕ}
    {report : Report} (h : b.build r profiler missed = .ok report) :
    report.timing = b.timing ∧ ∀ e ∈ report.data.entries, 0 < e.2 := by
  unfold ReportBuilder.build at h
  split at h
  · cases h
  · split at h
    · cases h
    · next p entries hiter =>
      cases h
      refine ⟨rfl, fun e he => ?_⟩
      exact (foldl_aggregate _ entries Table.empty positive_empty).1 e.1 e.2 (Table.get?_of_mem he)

/-- The reports of a guard have the frequency of the builder that returned it. -/
theorem ProfilerGuard.frequency_of_build {β : Type} {n : ℕ} [MemImage β (Entry UnresolvedFrames)]
    {f : Features} {s s' : Process β n} {b : ProfilerGuardBuilder} {a : Answers}
    {now instant later missed : ℕ} {g : ProfilerGuard} {post : Option (Frames → Frames)}
    {r : Resolver} {profiler : Except Error (Profiler β n)} {report : Report}
    (hguard : s.build f b a now instant = (s', some (.ok g)))
    (hreport : { g.report later with framesPostProcessor := post }.build r profiler missed =
      .ok report) : report.timing.frequency = b.frequency := by
  obtain ⟨s₁, -, -, rfl⟩ := Process.build_spec hguard
  rw [(ReportBuilder.build_ok hreport).1]
  rfl

namespace Produced

variable {β : Type} {n : ℕ} [MemImage β (Entry UnresolvedFrames)] {report : Report} {rate : ℤ}

/-- Every count is positive. -/
theorem count_pos (h : Produced β n report rate) : ∀ e ∈ report.data.entries, 0 < e.2 := by
  cases h with
  | build hguard hfrequency hreport => exact (ReportBuilder.build_ok hreport).2
  | inuse hrate hstored hbytes =>
    intro e he
    obtain ⟨rec, hrec, hpos, hval⟩ := HeapReport.exists_of_mem_column he
    rw [hval, asIsize_eq (by omega) (hbytes rec hrec)]
    exact hpos
  | alloc hrate hstored hbytes =>
    intro e he
    obtain ⟨rec, hrec, hpos, hval⟩ := HeapReport.exists_of_mem_column he
    have hlt := hbytes rec hrec
    rw [hval, asIsize_eq (by omega) (by omega)]
    exact hpos

/-- The frequency of a report is the rate, unless this is too large for it. -/
theorem frequency_iff (h : Produced β n report rate) (hpos : 0 < rate) :
    report.timing.frequency = rate ↔ rate < 2 ^ 31 := by
  cases h with
  | build hguard hfrequency hreport =>
    exact iff_of_true (ProfilerGuard.frequency_of_build hguard hreport) hfrequency.2
  | inuse hrate hstored hbytes =>
    rw [HeapReport.frequency_toInuseReport]
    exact asI32_eq_iff hpos
  | alloc hrate hstored hbytes =>
    rw [HeapReport.frequency_toAllocReport]
    exact asI32_eq_iff hpos

/-- **The times of a report are exact for a positive rate of at most 31 bits, if the times of
its counts fit 63 bits; and only then.** -/
theorem exactTimes_iff (h : Produced β n report rate) (demangle : String → String)
    (order : SetOrder) : report.ExactTimes demangle order rate ↔
      0 < rate ∧ rate < 2 ^ 31 ∧ ∀ e ∈ report.data.entries, e.2 * 1000000000 < 2 ^ 63 := by
  constructor
  · rintro ⟨hfrequency, hpos, p, hp, -, -⟩
    refine ⟨hpos, (h.frequency_iff hpos).mp hfrequency, fun e he => ?_⟩
    obtain ⟨smp, -, -, nanos, time, hnanos, -, -⟩ := (Report.pprof_spec hp).samples.exists_right he
    obtain ⟨rfl, -, hlt⟩ := mul_of_i64Mul hnanos
    exact hlt
  · rintro ⟨hpos, hlt, hcounts⟩
    have hfrequency := (h.frequency_iff hpos).mpr hlt
    have hmul : ∀ e ∈ report.data.entries,
        i64Mul e.2 1000000000 = some (e.2 * 1000000000) ∧ i64Div (e.2 * 1000000000) rate =
          some (e.2 * 1000000000 / rate) ∧ 0 ≤ e.2 * 1000000000 / rate := by
      intro e he
      have hcount := h.count_pos e he
      have hhigh := hcounts e he
      have hnonneg : 0 ≤ e.2 * 1000000000 := by omega
      refine ⟨i64Mul_eq (by omega) hhigh, ?_, Int.ediv_nonneg hnonneg hpos.le⟩
      rw [i64Div_of_pos hpos (by omega) hhigh, Int.tdiv_eq_ediv_of_nonneg hnonneg]
    have hperiod : i64Div 1000000000 rate = some (1000000000 / rate) := by
      rw [i64Div_of_pos hpos (by decide) (by decide), Int.tdiv_eq_ediv_of_nonneg (by decide)]
    rw [← hfrequency] at hmul hperiod
    obtain ⟨p, hp⟩ := Report.exists_pprof demangle order
      (fun e he => ⟨_, _, (hmul e he).1, (hmul e he).2.1⟩) ⟨_, hperiod⟩
    have hshows := Report.pprof_spec hp
    refine ⟨hfrequency, hpos, p, hp, ?_, ?_⟩
    · rw [← hfrequency]
      exact Option.some.inj (hshows.period.symm.trans hperiod)
    · refine ((List.forall₂_and_left _ _).mpr ⟨hmul, hshows.samples⟩).imp fun e smp hrow => ?_
      obtain ⟨⟨hnanos, hdiv, hquot⟩, -, nanos, time, hnanos', hdiv', hvalue⟩ := hrow
      obtain rfl := Option.some.inj (hnanos.symm.trans hnanos')
      obtain rfl := Option.some.inj (hdiv.symm.trans hdiv')
      rw [hvalue, ← hfrequency]
      exact ⟨rfl, hquot⟩

/-- Profiling on, nothing recorded. -/
def heapStart : Statics := ⟨true, 1, HeapState.new⟩

/-- The allocations of the recursion, at half a mebibyte. -/
theorem exactTimes_iff_recursion :
    recursionHeap.toAllocReport.ExactTimes id default 524288 ∧
      recursionHeap.toAllocReport.data.entries.map Prod.snd = [8] := by
  let _ : MemImage (Entry UnresolvedFrames) (Entry UnresolvedFrames) := MemImage.cell _
  have hproduced : Produced (Entry UnresolvedFrames) 7 recursionHeap.toAllocReport 524288 :=
    alloc (by decide)
      (show recursionHeap.sampleRate = (heapStart.setSampleRate 524288).sampleRate from rfl)
      (by decide)
  exact ⟨(exactTimes_iff hproduced id default).mpr ⟨by decide, by decide, by decide +kernel⟩,
    by decide +kernel⟩

/-- A heap report after ten gigabytes were allocated at one callsite. -/
def tenGigabytes : HeapReport := ⟨[⟨recursion, 19074, 10000000000, 0, 0⟩], 524288, 0⟩

/-- The time that ten billion bytes stand for does not fit. -/
theorem tenGigabytes_not_exact :
    letI : MemImage (Entry UnresolvedFrames) (Entry UnresolvedFrames) := MemImage.cell _
    Produced (Entry UnresolvedFrames) 7 tenGigabytes.toAllocReport 524288 ∧
      tenGigabytes.toAllocReport.pprof id default = none := by
  let _ : MemImage (Entry UnresolvedFrames) (Entry UnresolvedFrames) := MemImage.cell _
  refine ⟨alloc (by decide)
    (show tenGigabytes.sampleRate = (heapStart.setSampleRate 524288).sampleRate from rfl)
    (by decide), ?_⟩
  rw [Option.eq_none_iff_forall_ne_some]
  intro p hp
  have hmem : (recursion, 10000000000) ∈ tenGigabytes.toAllocReport.data.entries :=
    List.mem_singleton_self _
  obtain ⟨smp, -, -, nanos, time, hnanos, -, -⟩ :=
    (Report.pprof_spec hp).samples.exists_right hmem
  have hnone : i64Mul 10000000000 1000000000 = none := by decide
  rw [hnone] at hnanos
  cases hnanos

end Produced

end Rpprof
