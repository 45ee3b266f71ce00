import Rpprof.Profiler.Session

/-!
# What a report can contain

A collector that was new at some time holds what was made of the backtraces sampled since
then, whatever became of the writes.  A write that failed makes every later read fail, so a
report that is handed out at all contains those samples, each of them once, and no others.

## Main definitions

* `Splits samples entries` — the entries are the samples, split somehow.
* `Profiler.Made` — the collector was new, and then these backtraces were sampled.
* `Profiler.ReportsOnly` — a report contains these samples and no others.

## Main results

* `Profiler.Made.splits` — what such a collector yields is its samples, split somehow.
* `Profiler.Made.reportsOnly` — a report of it contains them and no others.
* `Session.made_of_run` — a run of a session samples what its handler says.
-/

namespace Rpprof

/-- The samples, split into entries: what there is of a backtrace may be spread over several
entries, in each under one of its samples, in one of them under the first. -/
structure Splits (samples : List UnresolvedFrames) (entries : List (Entry UnresolvedFrames)) :
    Prop where
  positive : ∀ e ∈ entries, 0 < e.count
  item_mem : ∀ e ∈ entries, e.item ∈ samples
  first : ∀ k first, samples.find? (· == k) = some first → ∃ e ∈ entries, e.item = first
  tally : ∀ k, tally k entries = samples.countP (· == k)

/-- The entries hold as much as there are samples. -/
theorem Splits.heldInAll_eq {samples : List UnresolvedFrames}
    {entries : List (Entry UnresolvedFrames)} (h : Splits samples entries) :
    heldInAll entries = samples.length := by
  let calls : List (AddCall UnresolvedFrames) := samples.map fun k => ⟨k, 1, []⟩
  have hone : ∀ c ∈ calls, c.count = 1 := by
    intro c hc
    obtain ⟨k, -, rfl⟩ := List.mem_map.mp hc
    rfl
  have hkeys : calls.map AddCall.key = samples := by
    rw [List.map_map]
    exact List.map_id samples
  have htally : ∀ k, Rpprof.tally k entries = added k calls := by
    intro k
    rw [h.tally, Session.added_eq_countP hone, hkeys]
  have hall := Session.heldInAll_eq h.positive htally
  rw [Session.sum_count_of_ones hone, List.length_map] at hall
  omega

theorem Splits.heldFor_eq {samples : List UnresolvedFrames}
    {entries : List (Entry UnresolvedFrames)} (h : Splits samples entries) (k : UnresolvedFrames) :
    heldFor id k entries = samples.countP (· == k) := by
  rw [Session.heldFor_eq_tally h.positive, h.tally]

/-- Every entry has a first sample of its backtrace. -/
theorem Splits.exists_first {samples : List UnresolvedFrames}
    {entries : List (Entry UnresolvedFrames)} (h : Splits samples entries)
    {e : Entry UnresolvedFrames} (he : e ∈ entries) :
    ∃ first, samples.find? (· == e.item) = some first ∧ (first == e.item) = true := by
  have hsome : (samples.find? (· == e.item)).isSome = true :=
    List.find?_isSome.mpr ⟨e.item, h.item_mem e he, BEq.refl _⟩
  obtain ⟨first, hfirst⟩ := Option.isSome_iff_exists.mp hsome
  have hk : (first == e.item) = true := List.find?_some (p := (· == e.item)) hfirst
  exact ⟨first, hfirst, hk⟩

variable {β : Type*} {n : ℕ} [MemImage β (Entry UnresolvedFrames)]

namespace Profiler

/-- Whatever report is built: it has the samples in total, and only them for keys. -/
structure ReportsOnly (p : Profiler β n) (samples : List UnresolvedFrames) : Prop where
  /-- Each backtrace as often as it was sampled. -/
  unresolved : ∀ (b : ReportBuilder) missed report,
    b.buildUnresolved (.ok p) missed = .ok report →
    totalSamples report.data = samples.length ∧
      ∀ q ∈ report.data.entries, q.1 ∈ samples ∧ q.2 = samples.countP (· == q.1)
  /-- Each key is what one of the samples resolves to. -/
  resolved : ∀ (b : ReportBuilder) r missed report, b.build r (.ok p) missed = .ok report →
    totalSamples report.data = samples.length ∧
      ∀ q ∈ report.data.entries, ∃ k ∈ samples, q.1 = b.resolvedKey r k

variable [NeZero n] (hash : UnresolvedFrames → ℕ)

/-- The collector was new, and since then these backtraces were handed to `sample`. -/
def Made (p : Profiler β n) (samples : List UnresolvedFrames) : Prop :=
  ∃ calls : List (AddCall UnresolvedFrames), (∀ c ∈ calls, c.count = 1) ∧
    calls.map AddCall.key = samples ∧ p.data = (Collector.new.addAll hash calls).1

theorem made_nil {p : Profiler β n} (h : p.data = Collector.new) : p.Made hash [] :=
  ⟨[], by simp, rfl, h⟩

variable {hash}

/-- One more sample, whatever becomes of its write. -/
theorem Made.sample {p : Profiler β n} {samples : List UnresolvedFrames} (h : p.Made hash samples)
    (frames : UnresolvedFrames) (writes : List WriteResult) :
    (p.sample hash frames writes).Made hash (samples ++ [frames]) := by
  obtain ⟨calls, hone, hkeys, hdata⟩ := h
  refine ⟨calls ++ [⟨frames, 1, writes⟩], ?_, ?_, ?_⟩
  · intro c hc
    rcases List.mem_append.mp hc with hold | hnew
    · exact hone c hold
    · rw [List.mem_singleton.mp hnew]
  · rw [List.map_append, hkeys]
    rfl
  · rw [Collector.addAll_append, ← hdata]
    rfl

/-- **What a collector yields is its samples, split somehow.** -/
theorem Made.splits {p : Profiler β n} {samples : List UnresolvedFrames} (h : p.Made hash samples)
    {entries : List (Entry UnresolvedFrames)} (hiter : p.data.tryIter = .ok entries) :
    Splits samples entries := by
  obtain ⟨calls, hone, hkeys, hdata⟩ := h
  rw [hdata] at hiter
  have hok := Collector.addAll_ok_of_flushesSucceed hash _
    (Collector.flushesSucceed_of_tryIter hash hiter)
  obtain ⟨entries', hiter', htally, hreal⟩ :=
    (Collector.Keeps.addAll hash Collector.keeps_new hok).tryIter
  rw [hiter, Except.ok.injEq] at hiter'
  subst hiter'
  rw [List.nil_append] at htally hreal
  obtain ⟨hitems, hfirst⟩ := (Collector.Stems.addAll hash Collector.stems_new hok).tryIter hiter
  rw [List.nil_append] at hitems hfirst
  constructor
  · exact fun e he => Session.count_pos_of_reallyAdded hone (hreal e he)
  · intro e he
    rw [← hkeys]
    exact hitems e he
  · intro k first hk
    rw [← hkeys, List.find?_map] at hk
    obtain ⟨c, hc, rfl⟩ := Option.map_eq_some_iff.mp hk
    exact hfirst k c hc
  · intro k
    rw [htally, Session.added_eq_countP hone, hkeys]

/-- **What can be reported of a collector is what was sampled since it was new.** -/
theorem Made.reportsOnly {p : Profiler β n} {samples : List UnresolvedFrames}
    (h : p.Made hash samples) : p.ReportsOnly samples := by
  constructor
  · intro b missed report hreport
    cases hiter : p.data.tryIter with
    | error e =>
      -- a flush failed: there is no report
      simp only [ReportBuilder.buildUnresolved, hiter] at hreport
      cases hreport
    | ok entries =>
      have hsplits := h.splits hiter
      rw [ReportBuilder.buildUnresolved_of_tryIter hiter] at hreport
      cases hreport
      refine ⟨(totalSamples_aggregate id entries).trans hsplits.heldInAll_eq, fun q hq => ?_⟩
      obtain ⟨e, he, -, hkey⟩ := key_of_mem_aggregate id hq
      refine ⟨hkey ▸ hsplits.item_mem e he, ?_⟩
      have hget := Table.get?_of_mem (m := aggregate id entries) (k := q.1) (v := q.2) hq
      rw [get?_aggregate] at hget
      split at hget
      · cases hget
      · rw [Option.some.injEq] at hget
        rw [← hget, hsplits.heldFor_eq]
  · intro b r missed report hreport
    cases hiter : p.data.tryIter with
    | error e =>
      simp only [ReportBuilder.build, hiter] at hreport
      cases hreport
    | ok entries =>
      have hsplits := h.splits hiter
      rw [ReportBuilder.build_of_tryIter hiter] at hreport
      cases hreport
      refine ⟨(totalSamples_aggregate (b.resolvedKey r) entries).trans hsplits.heldInAll_eq,
        fun q hq => ?_⟩
      obtain ⟨e, he, -, hkey⟩ := key_of_mem_aggregate _ hq
      exact ⟨e.item, hsplits.item_mem e he, hkey⟩

end Profiler

namespace Session

omit [MemImage β (Entry UnresolvedFrames)] in
theorem sampled_concat (process : Process β n) (exits : List Exit) (exit : Exit) :
    sampled ⟨process, exits ++ [exit]⟩ = exits.filterMap Exit.frames? ++ exit.frames?.toList := by
  rw [sampled, List.filterMap_append, List.filterMap_cons, List.filterMap_nil]
  cases exit.frames? with
  | none => rfl
  | some frames => rfl

variable [NeZero n] {f : Features} {finish : List ℕ → ℕ} {s s' : Session β n}

/-- One event of a session samples what its exit says. -/
theorem made_step (h : s.process.profiler.Made (UnresolvedFrames.hash finish) s.sampled)
    {e : SessionEvent} (hstep : s.step f finish e = some s') :
    s'.process.profiler.Made (UnresolvedFrames.hash finish) s'.sampled := by
  obtain ⟨-, rfl⟩ | ⟨t, process, exit, rfl, hrun, rfl⟩ := step_cases hstep
  · exact h
  · rw [sampled_concat]
    rcases Process.perfSignalHandler_cases f _ hrun with
      ⟨rfl, rfl⟩ | ⟨rfl, rfl⟩ | ⟨rfl, rfl⟩ | ⟨frames, rfl, rfl⟩
    · rw [show Exit.frames? .missed = none from rfl, Option.toList_none, List.append_nil]
      exact h
    · rw [show Exit.frames? .addressBlocked = none from rfl, Option.toList_none, List.append_nil]
      exact h
    · rw [show Exit.frames? .threadBlocked = none from rfl, Option.toList_none, List.append_nil]
      exact h
    · exact h.sample frames t.writes

/-- **A session's reports contain its own samples and no others**, whatever the writes do. -/
theorem made_of_run (h : s.process.profiler.Made (UnresolvedFrames.hash finish) s.sampled)
    {events : List SessionEvent} (hrun : Machine.run (step f finish) s events = some s') :
    s'.process.profiler.Made (UnresolvedFrames.hash finish) s'.sampled :=
  (Machine.reachable_of_run hrun).invariant h fun _ _ _ hs _ hstep => made_step hs hstep

end Session

end Rpprof
