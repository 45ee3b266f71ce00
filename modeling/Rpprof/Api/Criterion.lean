import Rpprof.Api.Helpers

/-!
# Profiling benchmarks

`PProfProfiler` is what the benchmark harness calls before and after it runs a benchmark: the first
call starts a session and keeps its guard, the second takes the guard, builds a report and writes it
to a file in the benchmark's directory, as a flamegraph or as a pprof file.  What goes wrong is a
panic; the guard that was taken is dropped all the same.

Every file that is written shows the samples that were taken since the call before it, and no sample
is in two files, whatever the calls and whichever of them fail.  A harness that calls in turn, and
whose system calls succeed, never sees a panic.

## Main definitions

* `Report.flamegraphLines` — what the flamegraph is drawn from.
* `Bench`, `Bench.step` — the harness with its profiler, and the files it has written.
* `Bench.Shown` — what a file shows of the samples.
* `Bench.InTurn` — calls in turn whose system calls succeed.

## Main results

* `Report.readLines_flamegraphLines` — the lines of the flamegraph are those of the folded text.
* `Bench.shown_of_reach` — **a file shows its benchmark's samples and no others**.
* `Bench.quiet_of_reach` — **calls in turn do not panic**, and each writes its file.
-/

namespace Rpprof

open Protos (Profile)

/-! ### The lines of a flamegraph -/

/-- A line of `flamegraph_with_options`. -/
def Frames.flamegraphLine (demangle : String → String) (key : Frames) (value : ℤ) : List Char :=
  (key.threadNameOrId.toList ++ ';' :: (key.frames.reverse.flatMap fun frame =>
    frame.reverse.flatMap fun symbol => (symbol.demangled demangle).toList ++ [';'])).dropLast ++
  ' ' :: (toString value).toList

/-- The lines that `flamegraph_with_options` hands on; there is no graph of none. -/
def Report.flamegraphLines (demangle : String → String) (report : Report) : List (List Char) :=
  report.data.entries.map fun e => e.1.flamegraphLine demangle e.2

theorem dropLast_closed (names : List (List Char)) : ∀ first : List Char,
    (first ++ ';' :: names.flatMap fun name => name ++ [';']).dropLast =
      first ++ names.flatMap fun name => ';' :: name := by
  induction names with
  | nil =>
    intro first
    rw [List.flatMap_nil, List.flatMap_nil, List.append_nil, List.dropLast_concat]
  | cons name names ih =>
    intro first
    have := ih (first ++ ';' :: name)
    simpa [List.flatMap_cons, List.append_assoc] using this

/-- **A line of the flamegraph is the line of the folded text.** -/
theorem Frames.flamegraphLine_eq (demangle : String → String) (key : Frames) (value : ℤ) :
    key.flamegraphLine demangle value = Folded.line (key.rootToLeaf demangle, value) := by
  rw [flamegraphLine, Folded.line, rootToLeaf, Folded.stack_cons, List.flatMap_assoc]
  have hnames := dropLast_closed (key.frames.reverse.flatMap fun frame =>
    frame.reverse.map fun symbol => (symbol.demangled demangle).toList) key.threadNameOrId.toList
  simp only [List.flatMap_assoc, List.flatMap_map] at hnames ⊢
  rw [hnames]

namespace Report

variable {demangle : String → String} {report : Report}

/-- Read as folded lines, they show what the report holds. -/
theorem readLines_flamegraphLines (hpos : ∀ e ∈ report.data.entries, 0 < e.2)
    (hplain : report.Plain demangle) :
    (report.flamegraphLines demangle).mapM Folded.readLine =
      some (report.shownStacks demangle) := by
  rw [List.mapM_eq_some_iff, flamegraphLines, shownStacks, List.forall₂_map_left_iff,
    List.forall₂_map_right_iff, List.forall₂_same]
  intro e he
  have hne : e.1.rootToLeaf demangle ≠ [] := by simp [Frames.rootToLeaf]
  rw [Frames.flamegraphLine_eq, Folded.readLine_line (hpos e he),
    Folded.splitOn_stack hne fun name hname => (hplain e he (hpos e he) name hname).1]

end Report

/-! ### The harness -/

/-- `Output`; the options of a flamegraph are handed on as they are. -/
inductive Output where
  | flamegraph
  | protobuf
deriving DecidableEq, Repr

/-- The name of the file. -/
def Output.filename : Output → String
  | flamegraph => "flamegraph.svg"
  | protobuf => "profile.pb"

/-- `PProfProfiler`. -/
structure PProfProfiler where
  frequency : ℤ
  output : Output
  activeProfiler : Option ProfilerGuard
deriving DecidableEq, Repr

/-- `PProfProfiler::new`. -/
def PProfProfiler.new (frequency : ℤ) (output : Output) : PProfProfiler :=
  ⟨frequency, output, none⟩

/-- What is in a file that was created. -/
inductive Contents where
  /-- Nothing, or what was written before an error. -/
  | unfinished
  | flamegraph (lines : List (List Char))
  | protobuf (profile : Profile)

/-- A file, with the samples it was made from: those of the exits between two of them, resolved. -/
structure BenchFile where
  path : List String
  contents : Contents
  since : ℕ
  upto : ℕ
  resolver : Resolver

/-- The answers of the file system. -/
structure FileAnswers where
  createDirAll : Bool
  create : Bool
  write : Bool
deriving DecidableEq, Repr

/-- The process of a benchmark harness. -/
structure Bench (β : Type*) (n : ℕ) where
  host : Host β n
  profiler : PProfProfiler
  files : List BenchFile
  /-- How many exits there were when the last session started. -/
  startedAt : ℕ
  panicked : Bool

/-- What happens while benchmarks are run. -/
inductive BenchEvent where
  | startProfiling (a : Answers) (now instant : ℕ)
  | stopProfiling (benchmarkDir : List String) (fs : FileAnswers) (r : Resolver) (order : SetOrder)
      (instant : ℕ)
  /-- A guard that is being dropped calls `stop`. -/
  | stop (a : Answers)
  | tick (sig : Signal) (t : Tick)

namespace Bench

variable {β : Type*} {n : ℕ} [MemImage β (Entry UnresolvedFrames)] [NeZero n]

/-- No benchmark has been run yet. -/
def init (original : Signal → SigAction) (frequency : ℤ) (output : Output) : Bench β n where
  host := Host.init original
  profiler := PProfProfiler.new frequency output
  files := []
  startedAt := 0
  panicked := false

/-- What the arms of `stop_profiling` write, and whether they do so without a panic. -/
def written (output : Output) (report : Except Error Report) (fs : FileAnswers) (r : Resolver)
    (order : SetOrder) : Contents × Bool :=
  match report with
  | .error _ => (.unfinished, false)
  | .ok report =>
    match output with
    | .flamegraph =>
      -- nothing is written, and nothing can fail, without lines
      if fs.write || report.data.entries.isEmpty then
        (.flamegraph (report.flamegraphLines r.demangle), true)
      else (.unfinished, false)
    | .protobuf =>
      match report.pprof r.demangle order with
      | some profile => if fs.write then (.protobuf profile, true) else (.unfinished, false)
      | none => (.unfinished, false)

variable (f : Features) (finish : List ℕ → ℕ)

/-- `start_profiling`: the guard that was there is dropped after the new one is made. -/
def startProfiling (s : Bench β n) (a : Answers) (now instant : ℕ) : Bench β n :=
  match s.host.build f { (default : ProfilerGuardBuilder) with frequency := s.profiler.frequency } a
    now instant with
  | (h, some (.ok g)) => { s with
      host := match s.profiler.activeProfiler with
        | some _ => (h.step f finish (.drop 1)).getD h
        | none => h
      profiler := { s.profiler with activeProfiler := some g }
      startedAt := h.exits.length }
  | (h, _) => { s with host := h, panicked := true }

/-- `stop_profiling`, as far as the guard's timer. -/
def stopProfiling (s : Bench β n) (benchmarkDir : List String) (fs : FileAnswers) (r : Resolver)
    (order : SetOrder) (instant : ℕ) : Option (Bench β n) :=
  if !fs.createDirAll || !fs.create then some { s with panicked := true }
  else
    match s.profiler.activeProfiler with
    | none => some { s with files := s.files ++ [⟨benchmarkDir ++ [s.profiler.output.filename],
        .unfinished, s.host.exits.length, s.host.exits.length, r⟩] }
    | some g =>
      let result := written s.profiler.output (s.host.report g r instant) fs r order
      -- at the end of the arm, or by the panic
      match s.host.step f finish (.drop 0) with
      | none => none
      | some h => some {
          host := h
          profiler := { s.profiler with activeProfiler := none }
          files := s.files ++ [⟨benchmarkDir ++ [s.profiler.output.filename], result.1,
            s.startedAt, s.host.exits.length, r⟩]
          startedAt := s.startedAt
          panicked := !result.2 }

/-- One event; after a panic there are only signals, and the guard that is being dropped. -/
def step (s : Bench β n) : BenchEvent → Option (Bench β n)
  | .startProfiling a now instant =>
    if s.panicked then none else some (s.startProfiling f finish a now instant)
  | .stopProfiling benchmarkDir fs r order instant =>
    if s.panicked then none else s.stopProfiling f finish benchmarkDir fs r order instant
  | .stop a => (s.host.step f finish (.stop a)).map fun h => { s with host := h }
  | .tick sig t => (s.host.step f finish (.tick sig t)).map fun h => { s with host := h }

end Bench

/-! ### What the files show -/

/-- What was written, read back, shows every stack as often as it was sampled; for a flamegraph, if
the names can be told apart in a line. -/
def Contents.Shows (looks : UnresolvedFrames → List String) (samples : List UnresolvedFrames) :
    Contents → Prop
  | unfinished => True
  | protobuf profile => ∃ l, profile.stacks = some l ∧ Tells looks samples l
  | flamegraph lines =>
    (∀ k ∈ samples, ∀ name ∈ looks k, ';' ∉ name.toList ∧ '\n' ∉ name.toList) →
    ∃ l, lines.mapM Folded.readLine = some l ∧ Tells looks samples l

namespace BenchFile

/-- The samples that the file was made from. -/
def samples (file : BenchFile) (exits : List Exit) : List UnresolvedFrames :=
  ((exits.take file.upto).drop file.since).filterMap Exit.frames?

/-- What it shows of a sample. -/
def looks (file : BenchFile) : UnresolvedFrames → List String :=
  (⟨none, default⟩ : ReportBuilder).looks file.resolver

/-- The file shows its samples, where equal ones look alike. -/
def Shown (exits : List Exit) (file : BenchFile) : Prop :=
  (∀ x ∈ file.samples exits, ∀ y ∈ file.samples exits, (x == y) = true →
    file.looks x = file.looks y) →
  file.contents.Shows file.looks (file.samples exits)

/-- Later exits do not matter. -/
theorem samples_append {file : BenchFile} {exits : List Exit} (h : file.upto ≤ exits.length)
    (more : List Exit) : file.samples (exits ++ more) = file.samples exits := by
  rw [samples, samples, List.take_append_of_le_length h]

theorem Shown.append {file : BenchFile} {exits : List Exit} (hshown : file.Shown exits)
    (h : file.upto ≤ exits.length) (more : List Exit) : file.Shown (exits ++ more) := by
  rw [Shown, samples_append h]
  exact hshown

end BenchFile

namespace Bench

variable {β : Type*} {n : ℕ} [MemImage β (Entry UnresolvedFrames)] [NeZero n] {f : Features}
  {finish : List ℕ → ℕ} {s s' : Bench β n}

/-- What is written of a report that is made now. -/
theorem shows_written {h : Host β n} {g : ProfilerGuard} {r : Resolver}
    {samples : List UnresolvedFrames}
    (hmade : h.process.profiler.Made (UnresolvedFrames.hash finish) samples)
    (hsame : ∀ x ∈ samples, ∀ y ∈ samples, (x == y) = true →
      (⟨none, default⟩ : ReportBuilder).looks r x = (⟨none, default⟩ : ReportBuilder).looks r y)
    (output : Output) (fs : FileAnswers) (order : SetOrder) (instant : ℕ) :
    (written output (h.report g r instant) fs r order).1.Shows
      ((⟨none, default⟩ : ReportBuilder).looks r) samples := by
  cases hreport : h.report g r instant with
  | error e => trivial
  | ok report =>
    rw [Host.report] at hreport
    split at hreport
    · have hpos := Session.positive_of_build hreport
      have htells := Session.tells_of_made hmade hreport hsame
      cases output with
      | flamegraph =>
        by_cases hw : (fs.write || report.data.entries.isEmpty) = true
        · simp only [written, if_pos hw]
          intro hnames
          refine ⟨_, Report.readLines_flamegraphLines hpos fun e he _ name hname => ?_, htells⟩
          obtain ⟨k, hk, hkey⟩ := (hmade.reportsOnly.resolved _ _ _ _ hreport).2 e he
          rw [hkey] at hname
          exact hnames k hk name hname
        · simp only [written, if_neg hw]
          trivial
      | protobuf =>
        cases hprofile : report.pprof r.demangle order with
        | none =>
          simp only [written, hprofile]
          trivial
        | some profile =>
          by_cases hw : fs.write = true
          · simp only [written, hprofile, if_pos hw]
            exact ⟨_, (Report.pprof_spec hprofile).stacks, htells⟩
          · simp only [written, hprofile, if_neg hw]
            trivial
    · cases hreport

/-- What holds of the harness after any events. -/
structure Inv (finish : List ℕ → ℕ) (s : Bench β n) : Prop where
  phase : s.host.Phase
  /-- A guard that is kept is the one there is, and its session has the samples since the start. -/
  active : ∀ g, s.profiler.activeProfiler = some g → s.host.guards = [g] ∧
    s.host.process.profiler.Made (UnresolvedFrames.hash finish)
      ((s.host.exits.drop s.startedAt).filterMap Exit.frames?)
  without : s.profiler.activeProfiler = none → s.host.guards = []
  started : s.startedAt ≤ s.host.exits.length
  shown : ∀ file ∈ s.files, file.Shown s.host.exits
  spans : s.files.Pairwise fun a b => a.upto ≤ b.since
  before : ∀ file ∈ s.files, file.since ≤ file.upto ∧ file.upto ≤ s.host.exits.length ∧
    (s.profiler.activeProfiler.isSome = true → file.upto ≤ s.startedAt)

theorem Inv.init {original : Signal → SigAction}
    (horig : ∀ sig, (original sig).handler ≠ .perfSignalHandler) (frequency : ℤ) (output : Output) :
    Inv finish (Bench.init original frequency output : Bench β n) where
  phase := Host.Phase.init horig
  active := fun g hg => by cases hg
  without := fun _ => rfl
  started := le_rfl
  shown := fun file hfile => absurd hfile List.not_mem_nil
  spans := .nil
  before := fun file hfile => absurd hfile List.not_mem_nil

/-- One signal that is delivered. -/
theorem run_tick {h h' : Host β n} {sig : Signal} {t : Tick}
    (hstep : h.step f finish (.tick sig t) = some h') :
    ∃ exits, h' = { h with process := h'.process, exits := h.exits ++ exits } ∧
      ∀ before, Machine.run (Session.step f finish) ⟨h.process, before⟩ [.tick t] =
        some ⟨h'.process, before ++ exits⟩ := by
  have hrun : Machine.run (Host.step f finish) h (HostEvent.ticks [(sig, t)]) = some h' := by
    rw [HostEvent.ticks, List.map_singleton, Machine.run_cons, hstep]
    rfl
  obtain ⟨exits, -, hh, hsession⟩ := Host.run_ticks hrun
  exact ⟨exits, hh, hsession⟩

/-- A signal that is delivered is one more exit, and perhaps one more sample. -/
theorem Inv.tick (hs : Inv finish s) {sig : Signal} {t : Tick} {h : Host β n}
    (hstep : s.host.step f finish (.tick sig t) = some h) : Inv finish { s with host := h } := by
  obtain ⟨exits, hh, hsession⟩ := run_tick hstep
  have hexits : h.exits = s.host.exits ++ exits := by rw [hh]
  have hguards : h.guards = s.host.guards := by rw [hh]
  constructor
  · exact hs.phase.step hstep
  · intro g hg
    obtain ⟨hone, hmade⟩ := hs.active g hg
    refine ⟨hguards.trans hone, ?_⟩
    show h.process.profiler.Made _ ((h.exits.drop s.startedAt).filterMap Exit.frames?)
    rw [hexits, List.drop_append_of_le_length hs.started]
    exact Session.made_of_run (s := ⟨s.host.process, s.host.exits.drop s.startedAt⟩) hmade
      (hsession _)
  · exact fun hg => hguards.trans (hs.without hg)
  · show s.startedAt ≤ h.exits.length
    rw [hexits, List.length_append]
    exact hs.started.trans (Nat.le_add_right _ _)
  · intro file hfile
    show file.Shown h.exits
    rw [hexits]
    exact (hs.shown file hfile).append (hs.before file hfile).2.1 exits
  · exact hs.spans
  · intro file hfile
    obtain ⟨hle, hupto, hstarted⟩ := hs.before file hfile
    refine ⟨hle, ?_, hstarted⟩
    show file.upto ≤ h.exits.length
    rw [hexits, List.length_append]
    exact hupto.trans (Nat.le_add_right _ _)

/-- The guard that calls `stop` was taken from the profiler before. -/
theorem Inv.stop (hs : Inv finish s) {a : Answers} {h : Host β n}
    (hstep : s.host.step f finish (.stop a) = some h) : Inv finish { s with host := h } := by
  have hphase := hs.phase.step hstep
  simp only [Host.step] at hstep
  split at hstep
  · next hpos =>
    cases hstep
    have hguards := (hs.phase.of_dropped hpos).2.2.1
    exact {
      phase := hphase
      active := fun g hg => by
        have hone := (hs.active g hg).1
        rw [hguards] at hone
        cases hone
      without := fun _ => hguards
      started := hs.started
      shown := hs.shown
      spans := hs.spans
      before := hs.before }
  · cases hstep

omit [MemImage β (Entry UnresolvedFrames)] [NeZero n] in
/-- A build without a guard leaves the guards and the exits as they were. -/
theorem build_no_guard_frame {h h' : Host β n} {b : ProfilerGuardBuilder} {a : Answers}
    {now instant : ℕ} {r : Option (Except Error ProfilerGuard)}
    (hbuild : h.build f b a now instant = (h', r)) (hr : ∀ g, r ≠ some (.ok g)) :
    h'.guards = h.guards ∧ h'.exits = h.exits := by
  unfold Host.build at hbuild
  split at hbuild
  · cases hbuild
    exact ⟨rfl, rfl⟩
  · split at hbuild
    · cases hbuild
      exact absurd rfl (hr _)
    · cases hbuild
      exact ⟨rfl, rfl⟩

omit [MemImage β (Entry UnresolvedFrames)] [NeZero n] in
/-- Where there is a guard there is a session. -/
theorem running_of_guards {h : Host β n} (hp : h.Phase) (hguards : h.guards ≠ []) :
    h.creation = some (.ok ()) ∧ h.process.profiler.running = true := by
  cases hp with
  | off _ hnone => exact absurd hnone hguards
  | on created on => exact ⟨created, on.running⟩
  | stuck _ _ hnone => exact absurd hnone hguards

/-- A start makes a session, or it panics and leaves the one there is. -/
theorem Inv.startProfiling (hs : Inv finish s) (a : Answers) (now instant : ℕ) :
    Inv finish (s.startProfiling f finish a now instant) := by
  have hphase := hs.phase.build (f := f) { (default : ProfilerGuardBuilder) with
    frequency := s.profiler.frequency } a now instant
  unfold Bench.startProfiling
  split
  · next h g hbuild =>
    rw [hbuild] at hphase
    obtain ⟨p, hp, hh⟩ := Host.build_guard_cases hbuild
    obtain ⟨-, hguards, hexits, hdata, -, -⟩ := hs.phase.begins hbuild
    -- a session that begins finds no guard
    have hnone : s.profiler.activeProfiler = none := by
      cases hactive : s.profiler.activeProfiler with
      | none => rfl
      | some g' =>
        have hone := (hs.active g' hactive).1
        rw [hh, hone] at hguards
        cases hguards
    rw [hnone]
    constructor
    · exact hphase
    · intro g' hg'
      cases hg'
      refine ⟨hguards, ?_⟩
      show h.process.profiler.Made _ ((h.exits.drop h.exits.length).filterMap Exit.frames?)
      rw [List.drop_length]
      exact Profiler.made_nil _ hdata
    · intro hno
      cases hno
    · exact le_rfl
    · intro file hfile
      show file.Shown h.exits
      rw [hexits]
      exact hs.shown file hfile
    · exact hs.spans
    · intro file hfile
      obtain ⟨hle, hupto, -⟩ := hs.before file hfile
      show file.since ≤ file.upto ∧ file.upto ≤ h.exits.length ∧ _
      rw [hexits]
      exact ⟨hle, hupto, fun _ => hupto⟩
  · next h r hr hbuild =>
    rw [hbuild] at hphase
    obtain ⟨hguards, hexits⟩ := build_no_guard_frame hbuild hr
    constructor
    · exact hphase
    · intro g hg
      obtain ⟨hone, hmade⟩ := hs.active g hg
      obtain ⟨hcreated, hrun⟩ := running_of_guards hs.phase (by simp [hone])
      rw [Host.build_of_running hcreated hrun] at hbuild
      cases hbuild
      exact ⟨hone, hmade⟩
    · exact fun hg => hguards.trans (hs.without hg)
    · show s.startedAt ≤ h.exits.length
      rw [hexits]
      exact hs.started
    · intro file hfile
      show file.Shown h.exits
      rw [hexits]
      exact hs.shown file hfile
    · exact hs.spans
    · intro file hfile
      show file.since ≤ file.upto ∧ file.upto ≤ h.exits.length ∧ _
      rw [hexits]
      exact hs.before file hfile

theorem forall_mem_concat {P : BenchFile → Prop} {files : List BenchFile} {file : BenchFile}
    (h : ∀ file ∈ files, P file) (hlast : P file) : ∀ file' ∈ files ++ [file], P file' := by
  intro file' hfile'
  rcases List.mem_append.mp hfile' with hold | hnew
  · exact h file' hold
  · rw [List.mem_singleton.mp hnew]
    exact hlast

theorem pairwise_concat {files : List BenchFile} {file : BenchFile}
    (h : files.Pairwise fun a b => a.upto ≤ b.since) (hlast : ∀ a ∈ files, a.upto ≤ file.since) :
    (files ++ [file]).Pairwise fun a b => a.upto ≤ b.since := by
  refine List.pairwise_append.mpr ⟨h, List.pairwise_singleton _ _, fun a ha b hb => ?_⟩
  rw [List.mem_singleton.mp hb]
  exact hlast a ha

/-- The timer of the one guard goes. -/
theorem drop_frame {h h' : Host β n} {g : ProfilerGuard} (hguards : h.guards = [g])
    (hdrop : h.step f finish (.drop 0) = some h') : h'.guards = [] ∧ h'.exits = h.exits := by
  simp only [Host.step, hguards] at hdrop
  cases hdrop
  exact ⟨rfl, rfl⟩

/-- A guard that is taken is dropped, and a stop without one writes an empty file. -/
theorem Inv.stopProfiling (hs : Inv finish s) {benchmarkDir : List String} {fs : FileAnswers}
    {r : Resolver} {order : SetOrder} {instant : ℕ}
    (hstop : s.stopProfiling f finish benchmarkDir fs r order instant = some s') :
    Inv finish s' := by
  unfold Bench.stopProfiling at hstop
  split at hstop
  · cases hstop
    exact ⟨hs.phase, hs.active, hs.without, hs.started, hs.shown, hs.spans, hs.before⟩
  · split at hstop
    · next hnone =>
      cases hstop
      have hbefore : ∀ file ∈ s.files, file.upto ≤ s.host.exits.length := fun file hfile =>
        (hs.before file hfile).2.1
      refine ⟨hs.phase, hs.active, hs.without, hs.started, ?_, pairwise_concat hs.spans hbefore, ?_⟩
      · exact forall_mem_concat hs.shown fun _ => trivial
      · refine forall_mem_concat hs.before ⟨le_rfl, le_rfl, fun hsome => ?_⟩
        rw [hnone] at hsome
        cases hsome
    · next g hactive =>
      simp only at hstop
      split at hstop
      · cases hstop
      · next h hdrop =>
        cases hstop
        obtain ⟨hguards, hmade⟩ := hs.active g hactive
        obtain ⟨hguards', hexits⟩ := drop_frame hguards hdrop
        have hbefore : ∀ file ∈ s.files, file.upto ≤ s.startedAt := fun file hfile =>
          (hs.before file hfile).2.2 (by rw [hactive]; rfl)
        constructor
        · exact hs.phase.step hdrop
        · intro g' hg'
          cases hg'
        · exact fun _ => hguards'
        · show s.startedAt ≤ h.exits.length
          rw [hexits]
          exact hs.started
        · show ∀ file ∈ s.files ++ [_], BenchFile.Shown h.exits file
          rw [hexits]
          refine forall_mem_concat hs.shown fun hsame => ?_
          rw [BenchFile.samples, List.take_length] at hsame ⊢
          exact shows_written hmade hsame _ _ _ _
        · exact pairwise_concat hs.spans hbefore
        · refine forall_mem_concat (fun file hfile => ?_)
            ⟨hs.started, hexits.symm ▸ le_rfl, fun hsome => by cases hsome⟩
          obtain ⟨hle, hupto, -⟩ := hs.before file hfile
          exact ⟨hle, hexits.symm ▸ hupto, fun hsome => by cases hsome⟩

/-- **Every event keeps the invariant.** -/
theorem Inv.step (hs : Inv finish s) {e : BenchEvent} (hstep : s.step f finish e = some s') :
    Inv finish s' := by
  cases e with
  | startProfiling a now instant =>
    rw [Bench.step] at hstep
    split at hstep
    · cases hstep
    · cases hstep
      exact hs.startProfiling a now instant
  | stopProfiling benchmarkDir fs r order instant =>
    rw [Bench.step] at hstep
    split at hstep
    · cases hstep
    · exact hs.stopProfiling hstep
  | stop a =>
    obtain ⟨h, hh, rfl⟩ := Option.map_eq_some_iff.mp hstep
    exact hs.stop hh
  | tick sig t =>
    obtain ⟨h, hh, rfl⟩ := Option.map_eq_some_iff.mp hstep
    exact hs.tick hh

/-- **A file shows its benchmark's samples and no others.**  Whatever the harness calls and
whichever call fails, each file that was written, read back, shows every stack as often as it was
sampled between the start before it and its stop; and these times do not overlap. -/
theorem shown_of_reach {original : Signal → SigAction}
    (horig : ∀ sig, (original sig).handler ≠ .perfSignalHandler) {frequency : ℤ} {output : Output}
    (hreach : Machine.Reachable (step f finish) (init original frequency output : Bench β n) s) :
    (∀ file ∈ s.files, file.Shown s.host.exits ∧ file.since ≤ file.upto ∧
      file.upto ≤ s.host.exits.length) ∧ s.files.Pairwise fun a b => a.upto ≤ b.since := by
  have hs : Inv finish s := hreach.invariant (Inv.init horig frequency output)
    fun _ _ _ hs _ hstep => hs.step hstep
  exact ⟨fun file hfile => ⟨hs.shown file hfile, (hs.before file hfile).1,
    (hs.before file hfile).2.1⟩, hs.spans⟩

/-- A benchmark that is interrupted twice, the second time with the lock held. -/
def benchmark (name : String) : List BenchEvent :=
  [.startProfiling Answers.ok 0 0, .tick .sigprof (Session.tickAt false 50 97),
    .tick .sigprof (Session.tickAt true 50 97),
    .stopProfiling ["target", name] ⟨true, true, true⟩ ReportBuilder.numbered default 10,
    .tick .sigprof (Session.tickAt false 50 97), .stop Answers.ok]

/-- Two benchmarks, and one that is started again before it is stopped. -/
def restarted : List BenchEvent :=
  benchmark "parse" ++ benchmark "print" ++
    [.startProfiling Answers.ok 20 20, .tick .sigprof (Session.tickAt false 51 97),
      .startProfiling Answers.ok 21 21]

theorem shown_of_reach_restarted :
    letI : MemImage (Entry UnresolvedFrames) (Entry UnresolvedFrames) := MemImage.cell _
    ∃ s : Bench (Entry UnresolvedFrames) 7,
      Machine.run (step ⟨false, 128⟩ List.sum) (init World.alarmed 99 .flamegraph) restarted =
        some s ∧
      s.files.map (fun file => (file.path, file.since, file.upto)) =
        [(["target", "parse", "flamegraph.svg"], 0, 2),
          (["target", "print", "flamegraph.svg"], 3, 5)] ∧
      s.panicked = true ∧
      (∀ file ∈ s.files, file.Shown s.host.exits ∧ file.since ≤ file.upto ∧
        file.upto ≤ s.host.exits.length) ∧ s.files.Pairwise fun a b => a.upto ≤ b.since := by
  let _ : MemImage (Entry UnresolvedFrames) (Entry UnresolvedFrames) := MemImage.cell _
  have hend : (Machine.run (step ⟨false, 128⟩ List.sum)
      (init World.alarmed 99 .flamegraph : Bench (Entry UnresolvedFrames) 7) restarted).map
        (fun s => (s.files.map fun file => (file.path, file.since, file.upto), s.panicked)) =
      some ([(["target", "parse", "flamegraph.svg"], 0, 2),
        (["target", "print", "flamegraph.svg"], 3, 5)], true) := by decide +kernel
  obtain ⟨s, hs, hobs⟩ := Option.map_eq_some_iff.mp hend
  obtain ⟨hfiles, hpanicked⟩ := Prod.mk.inj hobs
  exact ⟨s, hs, hfiles, hpanicked,
    shown_of_reach Host.foreign_alarmed (Machine.reachable_of_run hs)⟩

/-! ### Calls in turn -/

/-- The calls come in turn, each after what the one before it has begun is over, and the calls that
they make succeed; the ticks are not too many to be written. -/
def InTurn (s : Bench β n) : BenchEvent → Prop
  | .startProfiling a _ _ => s.profiler.activeProfiler = none ∧ s.host.dropped = 0 ∧
      a.sigaction = .ok () ∧ a.tempFile = .ok ()
  | .stopProfiling _ fs _ _ _ => s.profiler.activeProfiler.isSome = true ∧ fs = ⟨true, true, true⟩ ∧
      s.host.exits.length * 1000000000 < 2 ^ 63
  | .stop a => a.sigaction = .ok () ∧ a.tempFile = .ok ()
  | .tick _ t => ∀ w ∈ t.writes, w.Succeeds

instance (s : Bench β n) : DecidablePred s.InTurn
  | .startProfiling a _ _ => inferInstanceAs (Decidable (s.profiler.activeProfiler = none ∧
      s.host.dropped = 0 ∧ a.sigaction = .ok () ∧ a.tempFile = .ok ()))
  | .stopProfiling _ fs _ _ _ => inferInstanceAs (Decidable
      (s.profiler.activeProfiler.isSome = true ∧ fs = ⟨true, true, true⟩ ∧
        s.host.exits.length * 1000000000 < 2 ^ 63))
  | .stop a => inferInstanceAs (Decidable (a.sigaction = .ok () ∧ a.tempFile = .ok ()))
  | .tick _ t => inferInstanceAs (Decidable (∀ w ∈ t.writes, w.Succeeds))

/-- What holds as long as the calls come in turn. -/
structure Quiet (finish : List ℕ → ℕ) (s : Bench β n) : Prop where
  inv : Inv finish s
  calm : s.panicked = false
  frequency : 0 < s.profiler.frequency
  creation : s.host.creation = none ∨ s.host.creation = some (.ok ())
  /-- The session of a guard keeps its account, and its timer has the frequency. -/
  session : ∀ g, s.profiler.activeProfiler = some g →
    Session.Keeps ⟨s.host.process, s.host.exits.drop s.startedAt⟩ ∧
      ∃ t, g = ⟨some t⟩ ∧ t.frequency = s.profiler.frequency
  idle : s.profiler.activeProfiler = none → s.host.dropped = 0 →
    s.host.process.profiler.running = false
  finished : ∀ file ∈ s.files, file.contents ≠ .unfinished

theorem Quiet.init {original : Signal → SigAction}
    (horig : ∀ sig, (original sig).handler ≠ .perfSignalHandler) {frequency : ℤ}
    (hfrequency : 0 < frequency) (output : Output) :
    Quiet finish (Bench.init original frequency output : Bench β n) where
  inv := Inv.init horig frequency output
  calm := rfl
  frequency := hfrequency
  creation := Or.inl rfl
  session := fun g hg => by cases hg
  idle := fun _ _ => rfl
  finished := fun file hfile => absurd hfile List.not_mem_nil

theorem Quiet.startProfiling (hs : Quiet finish s) {a : Answers} {now instant : ℕ}
    (hturn : s.InTurn (.startProfiling a now instant)) :
    Quiet finish (s.startProfiling f finish a now instant) := by
  obtain ⟨hnone, hdropped, ha⟩ := hturn
  have hinv := hs.inv.startProfiling (f := f) a now instant
  have hidle : s.host.Idle := ⟨hs.inv.phase, hs.idle hnone hdropped, hs.creation⟩
  obtain ⟨h, t, hbuild⟩ := hidle.build (f := f)
    (b := { (default : ProfilerGuardBuilder) with frequency := s.profiler.frequency }) ha
    hs.frequency.ne' now instant
  obtain ⟨hcreated, -, -, hdata, hmissed, hg⟩ := hs.inv.phase.begins hbuild
  unfold Bench.startProfiling at hinv ⊢
  simp only [hbuild, hnone] at hinv ⊢
  refine ⟨hinv, hs.calm, hs.frequency, Or.inr hcreated, fun g' hg' => ?_,
    (fun hno => by cases hno), hs.finished⟩
  cases hg'
  refine ⟨?_, t, rfl, ?_⟩
  · show Session.Keeps ⟨h.process, h.exits.drop h.exits.length⟩
    rw [List.drop_length]
    exact Host.keeps_of_begin hdata hmissed
  · cases hg
    rfl

/-- A report that is made in turn is written. -/
theorem finished_of_turn (hs : Quiet finish s) {g : ProfilerGuard}
    (hactive : s.profiler.activeProfiler = some g)
    (hmax : s.host.exits.length * 1000000000 < 2 ^ 63) (r : Resolver) (order : SetOrder)
    (instant : ℕ) : ∃ contents, contents ≠ .unfinished ∧
      written s.profiler.output (s.host.report g r instant) ⟨true, true, true⟩ r order =
        (contents, true) := by
  obtain ⟨hguards, hmade⟩ := hs.inv.active g hactive
  obtain ⟨hkeeps, t, rfl, hfrequency⟩ := hs.session g hactive
  obtain ⟨hcreated, -⟩ := running_of_guards hs.inv.phase (by simp [hguards])
  obtain ⟨entries, hiter⟩ := Host.exists_tryIter hkeeps
  have hreport := Host.report_of_tryIter hcreated hiter ⟨some t⟩ r instant
  have hbuilt := ReportBuilder.build_of_tryIter hiter ((⟨some t⟩ : ProfilerGuard).report instant) r
    s.host.process.missedSamples
  rw [hreport]
  cases s.profiler.output with
  | flamegraph => exact ⟨_, (by intro hno; cases hno), rfl⟩
  | protobuf =>
    have hlength : ((s.host.exits.drop s.startedAt).filterMap Exit.frames?).length ≤
        s.host.exits.length := by
      refine (List.length_filterMap_le _ _).trans ?_
      rw [List.length_drop]
      exact Nat.sub_le _ _
    have hcount := (Nat.mul_le_mul_right 1000000000 hlength).trans_lt hmax
    have hpos : 0 < t.frequency := hfrequency ▸ hs.frequency
    obtain ⟨profile, hprofile⟩ := Session.exists_pprof_of_made hmade hbuilt hpos hcount order
    refine ⟨.protobuf profile, (by intro hno; cases hno), ?_⟩
    simp only [written, hprofile, if_true]

theorem Quiet.stopProfiling (hs : Quiet finish s) {benchmarkDir : List String} {fs : FileAnswers}
    {r : Resolver} {order : SetOrder} {instant : ℕ}
    (hturn : s.InTurn (.stopProfiling benchmarkDir fs r order instant))
    (hstop : s.stopProfiling f finish benchmarkDir fs r order instant = some s') :
    Quiet finish s' := by
  have hinv := hs.inv.stopProfiling hstop
  obtain ⟨hsome, rfl, hmax⟩ := hturn
  obtain ⟨g, hactive⟩ := Option.isSome_iff_exists.mp hsome
  obtain ⟨contents, hfinished, hwritten⟩ := finished_of_turn hs hactive hmax r order instant
  simp only [Bench.stopProfiling, hactive, hwritten] at hstop
  rw [if_neg (by decide)] at hstop
  split at hstop
  · cases hstop
  · next h hdrop =>
    cases hstop
    have hguards := (hs.inv.active g hactive).1
    simp only [Host.step, hguards] at hdrop
    cases hdrop
    refine ⟨hinv, rfl, hs.frequency, hs.creation, (fun g' hg' => by cases hg'),
      (fun _ hzero => by cases hzero), forall_mem_concat hs.finished hfinished⟩

theorem Quiet.stop (hs : Quiet finish s) {a : Answers}
    (ha : a.sigaction = .ok () ∧ a.tempFile = .ok ()) {h : Host β n}
    (hstep : s.host.step f finish (.stop a) = some h) : Quiet finish { s with host := h } := by
  have hinv := hs.inv.stop hstep
  simp only [Host.step] at hstep
  split at hstep
  · next hpos =>
    cases hstep
    obtain ⟨hcreated, hon, hguards, -⟩ := hs.inv.phase.of_dropped hpos
    refine ⟨hinv, hs.calm, hs.frequency, Or.inr hcreated, fun g hg => ?_,
      fun _ _ => ((hon.stop a).1 ha).running, hs.finished⟩
    have hone := (hs.inv.active g hg).1
    rw [hguards] at hone
    cases hone
  · cases hstep

/-- A signal that is delivered starts and stops nothing. -/
theorem running_tick {h h' : Host β n} {sig : Signal} {t : Tick}
    (hstep : h.step f finish (.tick sig t) = some h') :
    h'.process.profiler.running = h.process.profiler.running := by
  simp only [Host.step] at hstep
  split at hstep
  · split at hstep
    · next hhandler =>
      cases hstep
      exact (Process.perfSignalHandler_frame f _ hhandler).1
    · cases hstep
  · cases hstep

theorem Quiet.tick (hs : Quiet finish s) {sig : Signal} {t : Tick} (ht : ∀ w ∈ t.writes, w.Succeeds)
    {h : Host β n} (hstep : s.host.step f finish (.tick sig t) = some h) :
    Quiet finish { s with host := h } := by
  have hinv := hs.inv.tick hstep
  obtain ⟨exits, hh, hsession⟩ := run_tick hstep
  have hcreation : h.creation = s.host.creation := by rw [hh]
  have hdropped : h.dropped = s.host.dropped := by rw [hh]
  have hexits : h.exits = s.host.exits ++ exits := by rw [hh]
  refine ⟨hinv, hs.calm, hs.frequency, ?_, fun g hg => ?_, fun hnone hzero => ?_, hs.finished⟩
  · show h.creation = none ∨ h.creation = some (.ok ())
    rw [hcreation]
    exact hs.creation
  · obtain ⟨hkeeps, htimer⟩ := hs.session g hg
    refine ⟨?_, htimer⟩
    show Session.Keeps ⟨h.process, h.exits.drop s.startedAt⟩
    rw [hexits, List.drop_append_of_le_length hs.inv.started]
    refine (Session.keeps_of_run hkeeps (fun e he => ?_) (hsession _)).1
    rw [List.mem_singleton.mp he]
    exact ht
  · have hrun := hs.idle hnone (hdropped ▸ hzero)
    rw [← running_tick hstep] at hrun
    exact hrun

theorem Quiet.step (hs : Quiet finish s) {e : BenchEvent} (hturn : s.InTurn e)
    (hstep : s.step f finish e = some s') : Quiet finish s' := by
  cases e with
  | startProfiling a now instant =>
    rw [Bench.step] at hstep
    split at hstep
    · cases hstep
    · cases hstep
      exact hs.startProfiling hturn
  | stopProfiling benchmarkDir fs r order instant =>
    rw [Bench.step] at hstep
    split at hstep
    · cases hstep
    · exact hs.stopProfiling hturn hstep
  | stop a =>
    obtain ⟨h, hh, rfl⟩ := Option.map_eq_some_iff.mp hstep
    exact hs.stop hturn hh
  | tick sig t =>
    obtain ⟨h, hh, rfl⟩ := Option.map_eq_some_iff.mp hstep
    exact hs.tick hturn hh

/-- The next `stop_profiling` goes through, and writes a file of the samples since the start. -/
theorem Quiet.goesThrough (hs : Quiet finish s) {benchmarkDir : List String} {fs : FileAnswers}
    {r : Resolver} {order : SetOrder} {instant : ℕ}
    (hturn : s.InTurn (.stopProfiling benchmarkDir fs r order instant)) :
    ∃ s' file, s.step f finish (.stopProfiling benchmarkDir fs r order instant) = some s' ∧
      s'.files = s.files ++ [file] ∧ file.path = benchmarkDir ++ [s.profiler.output.filename] ∧
      file.since = s.startedAt ∧ file.upto = s.host.exits.length := by
  obtain ⟨hsome, rfl, hmax⟩ := hturn
  obtain ⟨g, hactive⟩ := Option.isSome_iff_exists.mp hsome
  obtain ⟨contents, -, hwritten⟩ := finished_of_turn hs hactive hmax r order instant
  have hguards := (hs.inv.active g hactive).1
  simp only [Bench.step, hs.calm, Bool.false_eq_true, if_false, Bench.stopProfiling, hactive,
    hwritten, Host.step, hguards, Bool.not_true, Bool.or_self, List.getElem?_cons_zero]
  exact ⟨_, _, rfl, rfl, rfl, rfl, rfl⟩

/-- **Calls in turn do not panic.**  As long as the harness calls in turn, and what these calls do
succeeds, there is no panic, each file is finished and shows its samples, and the next call goes
through and adds such a file. -/
theorem quiet_of_reach {original : Signal → SigAction}
    (horig : ∀ sig, (original sig).handler ≠ .perfSignalHandler) {frequency : ℤ}
    (hfrequency : 0 < frequency) {output : Output}
    (hreach : Machine.Reach (step f finish) InTurn (init original frequency output : Bench β n) s) :
    s.panicked = false ∧
      (∀ file ∈ s.files, file.contents ≠ .unfinished ∧ file.Shown s.host.exits) ∧
      ∀ benchmarkDir fs r order instant, s.InTurn (.stopProfiling benchmarkDir fs r order instant) →
        ∃ s' file, s.step f finish (.stopProfiling benchmarkDir fs r order instant) = some s' ∧
          s'.panicked = false ∧ s'.files = s.files ++ [file] ∧
          file.path = benchmarkDir ++ [s.profiler.output.filename] ∧
          file.since = s.startedAt ∧ file.upto = s.host.exits.length ∧
          file.contents ≠ .unfinished ∧ file.Shown s'.host.exits := by
  have hs : Quiet finish s := hreach.invariant (Quiet.init horig hfrequency output)
    fun _ _ _ hs hturn hstep => hs.step hturn hstep
  refine ⟨hs.calm, fun file hfile => ⟨hs.finished file hfile, hs.inv.shown file hfile⟩,
    fun benchmarkDir fs r order instant hturn => ?_⟩
  obtain ⟨s', file, hstep, hfiles, hpath, hsince, hupto⟩ := hs.goesThrough hturn
  have hs' := hs.step hturn hstep
  have hmem : file ∈ s'.files := hfiles ▸ List.mem_append_right _ (List.mem_singleton_self file)
  exact ⟨s', file, hstep, hs'.calm, hfiles, hpath, hsince, hupto, hs'.finished file hmem,
    hs'.inv.shown file hmem⟩

theorem quiet_of_reach_benchmark :
    letI : MemImage (Entry UnresolvedFrames) (Entry UnresolvedFrames) := MemImage.cell _
    ∃ s : Bench (Entry UnresolvedFrames) 7,
      Machine.run (step ⟨false, 128⟩ List.sum) (init World.alarmed 99 .flamegraph)
        (benchmark "parse" ++ (benchmark "print").take 3) = some s ∧
      s.panicked = false ∧
      (∀ file ∈ s.files, file.contents ≠ .unfinished ∧ file.Shown s.host.exits) ∧
      ∀ benchmarkDir fs r order instant, s.InTurn (.stopProfiling benchmarkDir fs r order instant) →
        ∃ s' file, s.step ⟨false, 128⟩ List.sum
            (.stopProfiling benchmarkDir fs r order instant) = some s' ∧
          s'.panicked = false ∧ s'.files = s.files ++ [file] ∧
          file.path = benchmarkDir ++ [s.profiler.output.filename] ∧
          file.since = s.startedAt ∧ file.upto = s.host.exits.length ∧
          file.contents ≠ .unfinished ∧ file.Shown s'.host.exits := by
  let _ : MemImage (Entry UnresolvedFrames) (Entry UnresolvedFrames) := MemImage.cell _
  have hturn : Machine.Throughout (step ⟨false, 128⟩ List.sum) InTurn
      (init World.alarmed 99 .flamegraph : Bench (Entry UnresolvedFrames) 7)
      (benchmark "parse" ++ (benchmark "print").take 3) := by decide +kernel
  have hend : (Machine.run (step ⟨false, 128⟩ List.sum)
      (init World.alarmed 99 .flamegraph : Bench (Entry UnresolvedFrames) 7)
      (benchmark "parse" ++ (benchmark "print").take 3)).isSome = true := by decide +kernel
  obtain ⟨s, hs⟩ := Option.isSome_iff_exists.mp hend
  exact ⟨s, hs,
    quiet_of_reach Host.foreign_alarmed (by decide) (Machine.Reach.of_throughout hturn hs)⟩

end Bench

end Rpprof
