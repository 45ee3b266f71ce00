import Rpprof.Export.Folded
import Rpprof.Export.Pprof
import Rpprof.Export.Speedscope
import Rpprof.Profiler.Refinement

/-!
# From the samples to what is shown of them

A session hands its backtraces to the collector, which counts them, may evict and spill them, and
keeps the first of those that are equal; a report resolves what it gets back and adds up what is
equal then; an export writes one line, sample or stack for each key.  The keys of a report can be
told apart by the time of a sample, which no export writes.

Whatever was evicted, and whichever keys the samples were split over: where equal backtraces look
alike when they are resolved, each export shows every stack as often as it was sampled.

## Main definitions

* `ReportBuilder.looks` — what the exports show of a backtrace: the thread, and the names.
* `countIn` — the count that a list of stacks shows for one of them.
* `Tells` — a list of stacks shows each as often as it was sampled.
* `Report.Displays` — each export of the report, read back, does.

## Main results

* `Splits.tells` — the entries of a report show each stack as often as it was sampled.
* `ReportBuilder.looks_eq` — when equal backtraces look alike.
* `Session.shown_of_run` — **and so do all three exports, read back**.
-/

namespace Rpprof

open Protos (Profile)

/-! ### What is shown -/

/-- What the exports show of a sampled backtrace: the thread, then the names, outermost first. -/
def ReportBuilder.looks (b : ReportBuilder) (r : Resolver) (k : UnresolvedFrames) : List String :=
  (b.resolvedKey r k).rootToLeaf r.demangle

/-- The count that a list of stacks shows for one. -/
def countIn (stack : List String) (shown : List (List String × ℤ)) : ℤ :=
  (shown.map fun e => if e.1 = stack then e.2 else 0).sum

/-- The stacks of a profile, each with its thread, outermost first, and its count. -/
def Protos.Profile.stacks (p : Profile) : Option (List (List String × ℤ)) :=
  (p.sample.mapM p.entry).map (List.map fun e => (e.1 :: e.2.1.reverse, e.2.2))

/-- The list shows each stack as often as it was sampled. -/
def Tells (looks : UnresolvedFrames → List String) (samples : List UnresolvedFrames)
    (shown : List (List String × ℤ)) : Prop :=
  ∀ stack, countIn stack shown = samples.countP fun k => looks k = stack

/-! ### The entries of a report -/

/-- Equal keys look alike. -/
theorem Frames.rootToLeaf_congr (demangle : String → String) {a b : Frames} (h : (a == b) = true) :
    a.rootToLeaf demangle = b.rootToLeaf demangle := by
  rw [Frames.beq_iff, Prod.mk.injEq, Prod.mk.injEq, Prod.mk.injEq] at h
  obtain ⟨hraw, hname, hid, -⟩ := h
  have hnames : ∀ k : Frames, k.names demangle =
      k.rawNames.flatten.map fun raw => demangle (fromUtf8Lossy raw) := by
    intro k
    rw [names, symbols, rawNames, ← List.map_flatten, List.map_map]
    rfl
  rw [rootToLeaf_eq, rootToLeaf_eq, hnames, hnames, hraw, threadNameOrId, threadNameOrId, hname,
    hid]

/-- Without a post-processor, equal backtraces of threads that keep their names look alike. -/
theorem ReportBuilder.looks_eq {r : Resolver} (hr : r.ByAddress) {timing : ReportTiming}
    {x y : UnresolvedFrames} (hxy : (x == y) = true) (hname : x.usedName = y.usedName) :
    looks ⟨none, timing⟩ r x = looks ⟨none, timing⟩ r y := by
  rw [UnresolvedFrames.beq_iff, Prod.mk.injEq] at hxy
  obtain ⟨hid, haddresses⟩ := hxy
  have hframes : Frames.resolveAll r x.frames = Frames.resolveAll r y.frames :=
    Frames.resolveAll_congr hr x.frames y.frames haddresses
  rw [UnresolvedFrames.usedName, UnresolvedFrames.usedName] at hname
  rw [looks, looks, resolvedKey, resolvedKey, Frames.rootToLeaf, Frames.rootToLeaf,
    Frames.threadNameOrId, Frames.threadNameOrId, Frames.ofUnresolved, Frames.ofUnresolved]
  simp only [hframes, hname, hid]

/-- Counting by ones. -/
theorem sum_ones (P : UnresolvedFrames → Prop) [DecidablePred P] (samples : List UnresolvedFrames) :
    (samples.map fun x => if P x then (1 : ℤ) else 0).sum = samples.countP fun x => P x := by
  induction samples with
  | nil => rfl
  | cons x samples ih =>
    rw [List.map_cons, List.sum_cons, ih, List.countP_cons, Nat.cast_add, add_comm, Nat.cast_ite,
      Nat.cast_one, Nat.cast_zero]
    simp only [decide_eq_true_eq]

/-- **The entries of a report show each stack as often as it was sampled**, if equal backtraces look
alike: what keeps keys apart cannot be seen, and what is added up looks the same. -/
theorem Splits.tells {samples : List UnresolvedFrames} {entries : List (Entry UnresolvedFrames)}
    (h : Splits samples entries) (b : ReportBuilder) (r : Resolver)
    (hsame : ∀ x ∈ samples, ∀ y ∈ samples, (x == y) = true → b.looks r x = b.looks r y) :
    Tells (b.looks r) samples ((aggregate (b.resolvedKey r) entries).entries.map fun e =>
      (e.1.rootToLeaf r.demangle, e.2)) := by
  intro stack
  -- first from the keys of the report to the entries of the collector
  have hkeys : ∀ k, List.classSum k (aggregate (b.resolvedKey r) entries).entries =
      List.classSum k (entries.map fun e => (b.resolvedKey r e.item, e.count)) := by
    intro k
    have hheld : heldFor (b.resolvedKey r) k entries =
        List.classSum k (entries.map fun e => (b.resolvedKey r e.item, e.count)) := by
      rw [heldFor, List.classSum, List.map_map]
      refine congrArg List.sum (List.map_congr_left fun e he => ?_)
      simp only [Function.comp_apply, gt_iff_lt, h.positive e he, true_and]
    rw [Table.classSum_entries, get?_aggregate, ← hheld]
    split
    · next hzero => rw [hzero, Option.getD_none]
    · rw [Option.getD_some]
  have hresolved := List.sum_ite_eq_of_classSum_eq hkeys
    (P := fun k => k.rootToLeaf r.demangle = stack) fun p _ q _ hpq => by
      rw [Frames.rootToLeaf_congr r.demangle hpq]
  -- then from these to the samples
  have hitems : ∀ k, List.classSum k (entries.map fun e => (e.item, e.count)) =
      List.classSum k (samples.map fun x => (x, (1 : ℤ))) := by
    intro k
    have hones : List.classSum k (samples.map fun x => (x, (1 : ℤ))) =
        Rpprof.tally k entries := by
      rw [h.tally k, List.classSum, List.map_map]
      refine (sum_ones (fun x => (x == k) = true) samples).trans ?_
      simp only [Bool.decide_eq_true]
    rw [hones, List.classSum, List.map_map]
    rfl
  have hmem : ∀ p ∈ (entries.map fun e => (e.item, e.count)) ++
      samples.map (fun x => (x, (1 : ℤ))), p.1 ∈ samples := by
    intro p hp
    rcases List.mem_append.mp hp with hp | hp
    · obtain ⟨e, he, rfl⟩ := List.mem_map.mp hp
      exact h.item_mem e he
    · obtain ⟨x, hx, rfl⟩ := List.mem_map.mp hp
      exact hx
  have hsampled := List.sum_ite_eq_of_classSum_eq hitems
    (P := fun k => b.looks r k = stack) fun p hp q hq hpq => by
      rw [hsame p.1 (hmem p hp) q.1 (hmem q hq) hpq]
  rw [List.map_map, List.map_map] at hsampled
  rw [List.map_map] at hresolved
  rw [countIn, List.map_map, ← sum_ones]
  exact hresolved.trans hsampled

/-! ### The exports -/

theorem positive_aggregate {K : Type*} [BEq K] [EquivBEq K] (key : UnresolvedFrames → K)
    (entries : List (Entry UnresolvedFrames)) : Positive (aggregate key entries) :=
  (foldl_aggregate key entries Table.empty positive_empty).1

/-- No count is more than all of them. -/
theorem le_totalSamples {m : Table Frames ℤ} {e : Frames × ℤ} (he : e ∈ m.entries) :
    e.2 ≤ totalSamples m := by
  have hle : (max e.2 0).toNat ≤ totalSamples m :=
    List.single_le_sum (fun _ _ => Nat.zero_le _) _ (List.mem_map_of_mem he)
  omega

namespace Report

variable {report : Report} {r : Resolver} {looks : UnresolvedFrames → List String}
  {samples : List UnresolvedFrames}

/-- What the report shows of its entries. -/
def shownStacks (report : Report) (demangle : String → String) : List (List String × ℤ) :=
  report.data.entries.map fun e => (e.1.rootToLeaf demangle, e.2)

/-- Only positive counts are written as text; with no others, nothing is left out. -/
theorem shown_eq_of_positive (hpos : ∀ e ∈ report.data.entries, 0 < e.2) :
    shown report.data.entries = report.data.entries :=
  List.filter_eq_self.mpr fun e he => decide_eq_true (hpos e he)

/-- The pprof file shows the stacks of the report. -/
theorem Shows.stacks {demangle : String → String} {p : Profile} (h : report.Shows demangle p) :
    p.stacks = some (report.shownStacks demangle) := by
  obtain ⟨firsts, hw⟩ := h.written
  have hnames := hw.names
  rw [List.forall₂_map_left_iff] at hnames
  have hentries : p.sample.mapM p.entry = some (report.data.entries.map fun e =>
      (e.1.threadNameOrId, e.1.names demangle, e.2)) := by
    rw [List.mapM_eq_some_iff, List.forall₂_map_right_iff]
    refine (List.Forall₂.mp (fun e smp hrow hstack => ?_) h.samples hnames).flip
    obtain ⟨hthread, nanos, time, -, -, hvalue⟩ := hrow
    show p.entry smp = some (e.1.threadNameOrId, e.1.names demangle, e.2)
    rw [Profile.entry, hthread, hstack, hvalue]
    rfl
  rw [Profile.stacks, hentries, Option.map_some, List.map_map, shownStacks]
  refine congrArg some (List.map_congr_left fun e _ => ?_)
  rw [Frames.rootToLeaf_eq]
  rfl

/-- The speedscope file shows the stacks of the report. -/
theorem exists_speedscope (demangle : String → String) (name : String)
    (hpos : ∀ e ∈ report.data.entries, 0 < e.2) (hmax : Rpprof.totalSamples report.data < 2 ^ 64) :
    ∃ bytes file, report.writeSpeedscope demangle name = some bytes ∧
      SpeedscopeFile.parse bytes = some file ∧
      file.entries = some (report.shownStacks demangle) := by
  have hsum : (weightsOf report.data.entries).sum = Rpprof.totalSamples report.data :=
    weightsOf_sum _
  have hnew : Speedscope.new.frames.Numbered := Interns.empty 0
  obtain ⟨s, hrun, hs⟩ := Speedscope.collect_spec demangle report.data.entries hnew
    (by rw [hsum]; exact (Nat.zero_add _).trans_lt hmax)
  obtain ⟨samples, hsamples, hstacks⟩ := hs.samples
  have hs_samples : s.samples = samples := hsamples
  have hs_weights : s.weights = weightsOf report.data.entries := hs.weights
  refine ⟨_, _, ?_, SpeedscopeFile.parse_text s name, ?_⟩
  · rw [writeSpeedscope, hrun]
    rfl
  · rw [shown_eq_of_positive hpos] at hstacks
    rw [SpeedscopeFile.entries, hs_samples, hs_weights, weightsOf, shown_eq_of_positive hpos,
      SpeedscopeFile.entries_of_indexes hpos hstacks, shownStacks]
    refine congrArg some (List.map_congr_left fun e _ => ?_)
    rw [Frames.rootToLeaf_eq]

/-- And so do the folded lines, where the names can be told apart in them. -/
theorem parse_folded {demangle : String → String} (hpos : ∀ e ∈ report.data.entries, 0 < e.2)
    (hplain : report.Plain demangle) :
    Folded.parse (report.writeFolded demangle) = some (report.shownStacks demangle) := by
  rw [parse_writeFolded hplain, foldedEntries, shown_eq_of_positive hpos, shownStacks]

/-- Each export of the report, read back, shows every stack as often as it was sampled. -/
def Displays (report : Report) (demangle : String → String) (looks : UnresolvedFrames → List String)
    (samples : List UnresolvedFrames) : Prop :=
  ∀ (order : SetOrder) (name : String),
    (∃ p l, report.pprof demangle order = some p ∧ p.stacks = some l ∧ Tells looks samples l) ∧
    (∃ bytes file l, report.writeSpeedscope demangle name = some bytes ∧
      SpeedscopeFile.parse bytes = some file ∧ file.entries = some l ∧ Tells looks samples l) ∧
    (report.Plain demangle → ∃ l, Folded.parse (report.writeFolded demangle) = some l ∧
      Tells looks samples l)

end Report

namespace Session

variable {β : Type*} {n : ℕ} [MemImage β (Entry UnresolvedFrames)] [NeZero n]
  {f : Features} {finish : List ℕ → ℕ} {s : Session β n}

section Made

variable {p : Profiler β n} {samples : List UnresolvedFrames} {b : ReportBuilder} {r : Resolver}
  {missed : ℕ} {report : Report}

omit [NeZero n] in
/-- A report has positive counts only. -/
theorem positive_of_build (hreport : b.build r (.ok p) missed = .ok report) :
    ∀ e ∈ report.data.entries, 0 < e.2 := by
  cases hiter : p.data.tryIter with
  | error e =>
    rw [ReportBuilder.build, hiter] at hreport
    cases hreport
  | ok entries =>
    rw [ReportBuilder.build_of_tryIter hiter, Except.ok.injEq] at hreport
    rw [← hreport]
    exact fun e he => positive_aggregate (b.resolvedKey r) entries e.1 e.2 (Table.get?_of_mem he)

/-- A report over a collector that was handed these samples shows each stack as often. -/
theorem tells_of_made (hmade : p.Made (UnresolvedFrames.hash finish) samples)
    (hreport : b.build r (.ok p) missed = .ok report)
    (hsame : ∀ x ∈ samples, ∀ y ∈ samples, (x == y) = true → b.looks r x = b.looks r y) :
    Tells (b.looks r) samples (report.shownStacks r.demangle) := by
  cases hiter : p.data.tryIter with
  | error e =>
    rw [ReportBuilder.build, hiter] at hreport
    cases hreport
  | ok entries =>
    have htells := (hmade.splits hiter).tells b r hsame
    rw [ReportBuilder.build_of_tryIter hiter, Except.ok.injEq] at hreport
    rw [← hreport]
    exact htells

/-- Its pprof file can be written, if its samples are not too many. -/
theorem exists_pprof_of_made (hmade : p.Made (UnresolvedFrames.hash finish) samples)
    (hreport : b.build r (.ok p) missed = .ok report) (hfrequency : 0 < report.timing.frequency)
    (hmax : samples.length * 1000000000 < 2 ^ 63) (order : SetOrder) :
    ∃ profile, report.pprof r.demangle order = some profile := by
  have hpos := positive_of_build hreport
  have htotal := (hmade.reportsOnly.resolved _ _ _ _ hreport).1
  have hcount : ∀ e ∈ report.data.entries,
      -2 ^ 63 ≤ e.2 * 1000000000 ∧ e.2 * 1000000000 < 2 ^ 63 := by
    intro e he
    -- no count is more than the samples there are
    have hle := le_totalSamples he
    have := hpos e he
    omega
  exact Report.exists_pprof r.demangle order
    (fun e he => ⟨_, _, i64Mul_eq (hcount e he).1 (hcount e he).2,
      i64Div_of_pos hfrequency (hcount e he).1 (hcount e he).2⟩)
    ⟨_, i64Div_of_pos hfrequency (by decide) (by decide)⟩

/-- The exports of the report, read back, show each stack as often. -/
theorem displays_of_made (hmade : p.Made (UnresolvedFrames.hash finish) samples)
    (hreport : b.build r (.ok p) missed = .ok report)
    (hsame : ∀ x ∈ samples, ∀ y ∈ samples, (x == y) = true → b.looks r x = b.looks r y)
    (hfrequency : 0 < report.timing.frequency) (hmax : samples.length * 1000000000 < 2 ^ 63) :
    report.Displays r.demangle (b.looks r) samples := by
  intro order name
  have hpos := positive_of_build hreport
  have htotal := (hmade.reportsOnly.resolved _ _ _ _ hreport).1
  have htells := tells_of_made hmade hreport hsame
  refine ⟨?_, ?_, fun hplain => ?_⟩
  · obtain ⟨p, hp⟩ := exists_pprof_of_made hmade hreport hfrequency hmax order
    exact ⟨p, _, hp, (Report.pprof_spec hp).stacks, htells⟩
  · obtain ⟨bytes, file, hbytes, hfile, hl⟩ :=
      Report.exists_speedscope r.demangle name hpos (by omega)
    exact ⟨bytes, file, _, hbytes, hfile, hl, htells⟩
  · exact ⟨_, Report.parse_folded hpos hplain, htells⟩

end Made

/-- **The exports show what was sampled.**  After any run of a session that was started with an
empty collector, whenever a report can be made, each of its exports, read back, shows every stack as
often as it was sampled: whatever was evicted, spilled or split over several keys. -/
theorem shown_of_run {p₀ p : Process β n} {clockType : ClockType}
    {blocklist : List (List UInt8)} {a : Answers} (hempty : p₀.profiler.data = Collector.new)
    (hstart : p₀.start clockType blocklist a = (p, .ok ())) {events : List SessionEvent}
    (hrun : Machine.run (step f finish) ⟨p, []⟩ events = some s) {b : ReportBuilder}
    {r : Resolver} {report : Report} (hreport : s.report b r = .ok report)
    (hsame : ∀ x ∈ s.sampled, ∀ y ∈ s.sampled, (x == y) = true → b.looks r x = b.looks r y)
    (hfrequency : 0 < report.timing.frequency) (hmax : s.sampled.length * 1000000000 < 2 ^ 63)
    (order : SetOrder) (name : String) :
    (∃ p l, report.pprof r.demangle order = some p ∧ p.stacks = some l ∧
      Tells (b.looks r) s.sampled l) ∧
    (∃ bytes file l, report.writeSpeedscope r.demangle name = some bytes ∧
      SpeedscopeFile.parse bytes = some file ∧ file.entries = some l ∧
      Tells (b.looks r) s.sampled l) ∧
    (report.Plain r.demangle → ∃ l, Folded.parse (report.writeFolded r.demangle) = some l ∧
      Tells (b.looks r) s.sampled l) := by
  have hmade : s.process.profiler.Made (UnresolvedFrames.hash finish) s.sampled := by
    refine made_of_run (s := ⟨p, []⟩) (Profiler.made_nil _ ?_) hrun
    rw [(Process.start_spec hstart).2.2.2, hempty]
  exact displays_of_made hmade hreport hsame hfrequency hmax order name

/-- Two threads of one name, one of them sampled twice in one stack at different times. -/
def twoThreads : List SessionEvent :=
  [.tick { tickAt false 50 97 with timestamp := 1 },
    .tick { tickAt false 51 97 with timestamp := 2 },
    .tick { tickAt false 50 97 with currentThread := 8 }]

theorem shown_of_run_twoThreads :
    letI : MemImage (Entry UnresolvedFrames) (Entry UnresolvedFrames) := MemImage.cell _
    ∃ (s : Session (Entry UnresolvedFrames) 7) (report : Report),
      Machine.run (step ⟨false, 128⟩ List.sum)
        ⟨(idleProcess.start .cpu [] Answers.ok).1, []⟩ twoThreads = some s ∧
      s.report ⟨none, ⟨99, 0, 1, .cpu⟩⟩ ReportBuilder.numbered = .ok report ∧
      (∃ p l, report.pprof id default = some p ∧ p.stacks = some l ∧
        Tells ((⟨none, ⟨99, 0, 1, .cpu⟩⟩ : ReportBuilder).looks ReportBuilder.numbered)
          s.sampled l) ∧
      (∃ bytes file l, report.writeSpeedscope id "cpu" = some bytes ∧
        SpeedscopeFile.parse bytes = some file ∧ file.entries = some l ∧
        Tells ((⟨none, ⟨99, 0, 1, .cpu⟩⟩ : ReportBuilder).looks ReportBuilder.numbered)
          s.sampled l) ∧
      (report.Plain id → ∃ l, Folded.parse (report.writeFolded id) = some l ∧
        Tells ((⟨none, ⟨99, 0, 1, .cpu⟩⟩ : ReportBuilder).looks ReportBuilder.numbered)
          s.sampled l) := by
  let _ : MemImage (Entry UnresolvedFrames) (Entry UnresolvedFrames) := MemImage.cell _
  have hend : (Machine.run (step ⟨false, 128⟩ List.sum)
      ⟨(idleProcess.start .cpu [] Answers.ok).1, []⟩ twoThreads).map (fun s =>
        (s.sampled.length, decide (∀ x ∈ s.sampled, ∀ y ∈ s.sampled, (x == y) = true →
          x.usedName = y.usedName), (s.process.profiler.data.tryIter).isOk)) =
      some (3, true, true) := by decide +kernel
  obtain ⟨s, hs, hobs⟩ := Option.map_eq_some_iff.mp hend
  rw [Prod.mk.injEq, Prod.mk.injEq, decide_eq_true_iff] at hobs
  obtain ⟨hlength, hname, hok⟩ := hobs
  cases hiter : s.process.profiler.data.tryIter with
  | error e =>
    rw [hiter] at hok
    cases hok
  | ok entries =>
    have hreport := ReportBuilder.build_of_tryIter hiter ⟨none, ⟨99, 0, 1, .cpu⟩⟩
      ReportBuilder.numbered s.process.missedSamples
    have hempty : idleProcess.profiler.data = Collector.new := rfl
    have hstart : idleProcess.start .cpu [] Answers.ok =
        ((idleProcess.start .cpu [] Answers.ok).1, .ok ()) := rfl
    have hfrequency : (0 : ℤ) < 99 := by decide
    exact ⟨s, _, hs, hreport, shown_of_run hempty hstart hs hreport
      (fun x hx y hy hxy => ReportBuilder.looks_eq ReportBuilder.byAddress_numbered hxy
        (hname x hx y hy hxy)) hfrequency (by omega) default "cpu"⟩

end Session

end Rpprof
