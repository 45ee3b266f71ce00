import Rpprof.Profiler.Report
import Rpprof.Lib.Machine

/-!
# One profiling session

From a successful start on, the signal handler runs any number of times and reports are
built at any time.  Every invocation of the handler is accounted for once: as a sample
under its backtrace, as dropped by one of the two blocklists, or as missed.

A tick that arrives while a report is built finds the lock held.  As a missed tick and a
report do not touch the same state, it makes no difference whether it counts as just
before the report or just after, and a report is one event here.

## Main definitions

* `Session`, `Session.step` — the process, and the exits its handler took.
* `Session.Keeps` — what the collector and the counter hold of those exits.
* `Session.Accounted` — what the reports say.

## Main results

* `Session.Keeps.step`, `Session.keeps_of_run` — every event keeps the account.
* `Session.accounting_of_run` — **the reports add up**, at every point of the session.
-/

namespace Rpprof

namespace Exit

def isMissed : Exit → Bool
  | missed => true
  | _ => false

def isAddressBlocked : Exit → Bool
  | addressBlocked => true
  | _ => false

def isThreadBlocked : Exit → Bool
  | threadBlocked => true
  | _ => false

/-- The backtrace handed to `sample`. -/
def frames? : Exit → Option UnresolvedFrames
  | sampled frames => some frames
  | _ => none

end Exit

/-- The process during a session, and how each invocation of the handler ended. -/
structure Session (β : Type*) (n : ℕ) where
  process : Process β n
  exits : List Exit

/-- What happens in a session. -/
inductive SessionEvent where
  /-- The handler is invoked. -/
  | tick (t : Tick)
  | buildUnresolved (b : ReportBuilder)
  | build (b : ReportBuilder) (r : Resolver)

namespace SessionEvent

def isTick : SessionEvent → Bool
  | tick _ => true
  | _ => false

/-- The temp file takes what is written to it. -/
def WritesSucceed : SessionEvent → Prop
  | tick t => ∀ w ∈ t.writes, w.Succeeds
  | _ => True

end SessionEvent

namespace Session

variable {β : Type*} {n : ℕ} [MemImage β (Entry UnresolvedFrames)] [NeZero n] (f : Features)
  (finish : List ℕ → ℕ)

/-- One event.  An invocation of the handler runs to completion; the builders only read. -/
def step (s : Session β n) : SessionEvent → Option (Session β n)
  | .tick t =>
    match s.process.perfSignalHandler f (UnresolvedFrames.hash finish) t with
    | some (process, exit) => some ⟨process, s.exits ++ [exit]⟩
    | none => none
  | .buildUnresolved _ | .build _ _ => some s

omit [MemImage β (Entry UnresolvedFrames)] [NeZero n] in
/-- The backtraces handed to `sample`, in order. -/
def sampled (s : Session β n) : List UnresolvedFrames := s.exits.filterMap Exit.frames?

omit [NeZero n] in
/-- `build_unresolved`, now. -/
def unresolvedReport (s : Session β n) (b : ReportBuilder) : Except Error UnresolvedReport :=
  b.buildUnresolved (.ok s.process.profiler) s.process.missedSamples

omit [NeZero n] in
/-- `build`, now. -/
def report (s : Session β n) (b : ReportBuilder) (r : Resolver) : Except Error Report :=
  b.build r (.ok s.process.profiler) s.process.missedSamples

/-! ### The account -/

omit [MemImage β (Entry UnresolvedFrames)] [NeZero n] in
/-- Every exit is of one kind. -/
theorem length_exits (s : Session β n) : s.sampled.length + s.exits.countP Exit.isAddressBlocked +
    s.exits.countP Exit.isThreadBlocked + s.exits.countP Exit.isMissed = s.exits.length := by
  unfold sampled
  generalize s.exits = l
  induction l with
  | nil => rfl
  | cons e l ih =>
    rw [List.filterMap_cons, List.countP_cons, List.countP_cons, List.countP_cons]
    cases e <;> simp [Exit.isMissed, Exit.isAddressBlocked, Exit.isThreadBlocked, Exit.frames?]
      <;> omega

/-- The collector holds each sampled backtrace with a count of one for each time it was
sampled, and the counter holds the missed ticks. -/
structure Keeps (s : Session β n) : Prop where
  collected : ∃ calls, s.process.profiler.data.Keeps calls ∧ (∀ c ∈ calls, c.count = 1) ∧
    calls.map AddCall.key = s.sampled
  missed : s.process.missedSamples = s.exits.countP Exit.isMissed

variable {f finish} {s s' : Session β n} {e : SessionEvent}

omit [NeZero n] in
/-- An exit other than a sample leaves the collector alone. -/
theorem Keeps.of_not_sampled (h : s.Keeps) (exit : Exit) (hexit : exit.frames? = none)
    {missed : ℕ} (hmissed : missed = s.process.missedSamples + if exit.isMissed then 1 else 0) :
    Keeps ⟨{ s.process with missedSamples := missed }, s.exits ++ [exit]⟩ where
  collected := by
    obtain ⟨calls, hkeeps, hone, hkeys⟩ := h.collected
    refine ⟨calls, hkeeps, hone, ?_⟩
    rw [hkeys, sampled, sampled, List.filterMap_append]
    simp [hexit]
  missed := by
    rw [hmissed, h.missed, List.countP_append]
    simp

/-- **What an event can do**: run the handler to one of its exits, or nothing. -/
theorem step_cases (h : s.step f finish e = some s') : (e.isTick = false ∧ s' = s) ∨
    ∃ t process exit, e = .tick t ∧
      s.process.perfSignalHandler f (UnresolvedFrames.hash finish) t = some (process, exit) ∧
      s' = ⟨process, s.exits ++ [exit]⟩ := by
  cases e with
  | buildUnresolved b => cases h; exact Or.inl ⟨rfl, rfl⟩
  | build b r => cases h; exact Or.inl ⟨rfl, rfl⟩
  | tick t =>
    simp only [step] at h
    cases hrun : s.process.perfSignalHandler f (UnresolvedFrames.hash finish) t with
    | none => rw [hrun] at h; cases h
    | some result =>
      rw [hrun] at h
      cases h
      exact Or.inr ⟨t, result.1, result.2, rfl, hrun, rfl⟩

/-- **One event keeps the account.** -/
theorem Keeps.step (h : s.Keeps) (hw : e.WritesSucceed) (hstep : s.step f finish e = some s') :
    s'.Keeps := by
  obtain ⟨-, rfl⟩ | ⟨t, process, exit, rfl, hrun, rfl⟩ := step_cases hstep
  · exact h
  · rcases Process.perfSignalHandler_cases f _ hrun with
      ⟨rfl, rfl⟩ | ⟨rfl, rfl⟩ | ⟨rfl, rfl⟩ | ⟨frames, rfl, rfl⟩
    · exact h.of_not_sampled .missed rfl rfl
    · exact h.of_not_sampled .addressBlocked rfl rfl
    · exact h.of_not_sampled .threadBlocked rfl rfl
    · constructor
      · -- the sample is one more call of `add`
        obtain ⟨calls, hkeeps, hone, hkeys⟩ := h.collected
        refine ⟨calls ++ [⟨frames, 1, t.writes⟩], ?_, ?_, ?_⟩
        · exact hkeeps.add _ (Collector.add_ok _ hw)
        · intro c hc
          rcases List.mem_append.mp hc with hold | hnew
          · exact hone c hold
          · rw [List.mem_singleton.mp hnew]
        · rw [List.map_append, hkeys, sampled, sampled, List.filterMap_append]
          simp [Exit.frames?]
      · rw [h.missed, List.countP_append]
        simp [Exit.isMissed]

/-- The run lemma: the account is kept, and there is one exit for each tick. -/
theorem keeps_of_run (h : s.Keeps) {events : List SessionEvent}
    (hw : ∀ e ∈ events, e.WritesSucceed) (hrun : Machine.run (step f finish) s events = some s') :
    s'.Keeps ∧ s'.exits.length = s.exits.length + events.countP SessionEvent.isTick := by
  induction events generalizing s with
  | nil =>
    rw [Machine.run_nil, Option.some.injEq] at hrun
    rw [← hrun]
    exact ⟨h, rfl⟩
  | cons e events ih =>
    rw [List.forall_mem_cons] at hw
    rw [Machine.run_cons] at hrun
    obtain ⟨u, hu, hrest⟩ := Option.bind_eq_some_iff.mp hrun
    obtain ⟨hkeeps, hlength⟩ := ih (h.step hw.1 hu) hw.2 hrest
    refine ⟨hkeeps, ?_⟩
    have hone : u.exits.length = s.exits.length + if e.isTick then 1 else 0 := by
      obtain ⟨hno, rfl⟩ | ⟨t, process, exit, rfl, -, rfl⟩ := step_cases hu
      · rw [hno]
        rfl
      · exact List.length_append
    rw [hlength, hone, List.countP_cons]
    omega

/-! ### What the reports say -/

omit [MemImage β (Entry UnresolvedFrames)] [NeZero n] in
theorem sum_count_of_ones {calls : List (AddCall UnresolvedFrames)}
    (hone : ∀ c ∈ calls, c.count = 1) : (calls.map AddCall.count).sum = calls.length := by
  induction calls with
  | nil => rfl
  | cons c calls ih =>
    rw [List.forall_mem_cons] at hone
    rw [List.map_cons, List.sum_cons, ih hone.2, hone.1, List.length_cons]
    omega

/-- An entry that stands for calls of count one has a positive count. -/
theorem count_pos_of_reallyAdded {calls : List (AddCall UnresolvedFrames)}
    (hone : ∀ c ∈ calls, c.count = 1) {x : Entry UnresolvedFrames}
    (hx : Collector.ReallyAdded calls x) : 0 < x.count := by
  obtain ⟨made, hsub, hne, -, hcount⟩ := hx
  rw [hcount, sum_count_of_ones fun c hc => hone c (hsub.subset hc)]
  have := List.length_pos_iff.mpr hne
  omega

/-- What was added for a backtrace is how often it was sampled. -/
theorem added_eq_countP {calls : List (AddCall UnresolvedFrames)} (hone : ∀ c ∈ calls, c.count = 1)
    (k : UnresolvedFrames) : added k calls = (calls.map AddCall.key).countP (· == k) := by
  induction calls with
  | nil => rfl
  | cons c calls ih =>
    rw [List.forall_mem_cons] at hone
    have hrest := ih hone.2
    rw [added] at hrest ⊢
    rw [List.map_cons, List.sum_cons, hrest, hone.1, List.map_cons, List.countP_cons]
    split <;> push_cast <;> omega

/-- Entries with positive counts: a report holds their tally. -/
theorem heldFor_eq_tally {entries : List (Entry UnresolvedFrames)}
    (hpos : ∀ x ∈ entries, 0 < x.count) (k : UnresolvedFrames) :
    heldFor id k entries = tally k entries := by
  rw [heldFor, tally]
  refine congrArg List.sum (List.map_congr_left fun x hx => ?_)
  simp [Entry.countOf, hpos x hx]

/-- Entries with positive counts and the tallies of some calls hold as much as the calls. -/
theorem heldInAll_eq {entries : List (Entry UnresolvedFrames)} (hpos : ∀ x ∈ entries, 0 < x.count)
    {calls : List (AddCall UnresolvedFrames)} (htally : ∀ k, tally k entries = added k calls) :
    (heldInAll entries : ℤ) = (calls.map AddCall.count).sum := by
  have hcounts : (heldInAll entries : ℤ) = (entries.map Entry.count).sum := by
    clear htally
    induction entries with
    | nil => rfl
    | cons x entries ih =>
      rw [List.forall_mem_cons] at hpos
      have hrest := ih hpos.2
      rw [heldInAll] at hrest ⊢
      rw [List.map_cons, List.sum_cons, List.map_cons, List.sum_cons]
      omega
  -- the totals agree because the tallies do
  have hclasses := List.sum_eq_of_classSum_eq (entries.map fun x => (x.item, x.count))
    (calls.map fun c => (c.key, c.count)) fun k => by
      simp only [List.classSum, List.map_map]
      exact htally k
  rw [List.map_map, List.map_map] at hclasses
  rw [hcounts]
  exact hclasses

/-- What the reports say of a session of so many ticks: the unresolved one how often each
backtrace was sampled, either the same total, and the total with what was dropped and what
was missed is the number of ticks. -/
def Accounted (s : Session β n) (ticks : ℕ) : Prop :=
  ∀ b b' r, ∃ report report', s.unresolvedReport b = .ok report ∧ s.report b' r = .ok report' ∧
    (∀ k, report.data.get? k = if s.sampled.countP (· == k) = 0 then none
      else some (s.sampled.countP (· == k) : ℤ)) ∧
    totalSamples report'.data = totalSamples report.data ∧
    report.missedSamples = s.process.missedSamples ∧
    report'.missedSamples = s.process.missedSamples ∧
    totalSamples report.data + s.exits.countP Exit.isAddressBlocked +
      s.exits.countP Exit.isThreadBlocked + s.process.missedSamples = ticks

omit [NeZero n] in
theorem Keeps.accounted (h : s.Keeps) : s.Accounted s.exits.length := by
  intro b b' r
  obtain ⟨calls, hkeeps, hone, hkeys⟩ := h.collected
  obtain ⟨entries, hiter, htally, hreal⟩ := hkeeps.tryIter
  have hpos : ∀ x ∈ entries, 0 < x.count := fun x hx => count_pos_of_reallyAdded hone (hreal x hx)
  have hheld : ∀ k, heldFor id k entries = s.sampled.countP (· == k) := by
    intro k
    rw [heldFor_eq_tally hpos, htally, added_eq_countP hone, hkeys]
  have htotal : totalSamples (aggregate id entries) = s.sampled.length := by
    have hall := heldInAll_eq hpos htally
    rw [sum_count_of_ones hone, ← List.length_map AddCall.key, hkeys] at hall
    rw [totalSamples_aggregate]
    omega
  refine ⟨_, _, ReportBuilder.buildUnresolved_of_tryIter hiter b _,
    ReportBuilder.build_of_tryIter hiter b' r _, ?_, ?_, rfl, rfl, ?_⟩
  · intro k
    rw [get?_aggregate, hheld]
    simp only [Nat.cast_eq_zero]
  · rw [totalSamples_aggregate, totalSamples_aggregate]
  · show totalSamples (aggregate id entries) + _ + _ + _ = _
    rw [htotal, h.missed, length_exits]

omit [MemImage β (Entry UnresolvedFrames)] [NeZero n] in
/-- A session begins with nothing to account for. -/
theorem keeps_start [MemImage β (Entry UnresolvedFrames)] [NeZero n] {p₀ p : Process β n}
    {clockType : ClockType} {blocklist : List (List UInt8)} {a : Answers}
    (hempty : p₀.profiler.data = Collector.new)
    (hstart : p₀.start clockType blocklist a = (p, .ok ())) : Keeps ⟨p, []⟩ := by
  obtain ⟨-, -, hmissed, hdata⟩ := Process.start_spec hstart
  refine ⟨⟨[], ?_, ?_, rfl⟩, hmissed⟩
  · show p.profiler.data.Keeps []
    rw [hdata, hempty]
    exact Collector.keeps_new
  · intro c hc
    cases hc

/-- Taking the reports out of a run leaves it where it was. -/
theorem run_filter_isTick {events : List SessionEvent}
    (hrun : Machine.run (step f finish) s events = some s') :
    Machine.run (step f finish) s (events.filter SessionEvent.isTick) = some s' := by
  induction events generalizing s with
  | nil => exact hrun
  | cons e events ih =>
    rw [Machine.run_cons] at hrun
    obtain ⟨u, hu, hrest⟩ := Option.bind_eq_some_iff.mp hrun
    obtain ⟨hno, rfl⟩ | ⟨t, process, exit, rfl, -, rfl⟩ := step_cases hu
    · rw [List.filter_cons_of_neg (by rw [hno]; decide)]
      exact ih hrest
    · rw [List.filter_cons_of_pos (show (SessionEvent.tick t).isTick = true from rfl),
        Machine.run_cons, hu]
      exact ih hrest

/-- **Session accounting.**  At every point of a session whose writes succeed, the reports
account for every invocation of the handler since the start, and it makes no difference
to them which reports were built before. -/
theorem accounting_of_run {p₀ p : Process β n} {clockType : ClockType}
    {blocklist : List (List UInt8)} {a : Answers} (hempty : p₀.profiler.data = Collector.new)
    (hstart : p₀.start clockType blocklist a = (p, .ok ())) {events : List SessionEvent}
    (hw : ∀ e ∈ events, e.WritesSucceed)
    (hrun : Machine.run (step f finish) ⟨p, []⟩ events = some s) :
    s.Accounted (events.countP SessionEvent.isTick) ∧
      Machine.run (step f finish) ⟨p, []⟩ (events.filter SessionEvent.isTick) = some s := by
  obtain ⟨hkeeps, hlength⟩ := keeps_of_run (keeps_start hempty hstart) hw hrun
  constructor
  · have := hkeeps.accounted
    rwa [hlength, List.length_nil, Nat.zero_add] at this
  · exact run_filter_isTick hrun

/-- A process with the code at 100 to 200 blocked. -/
def idleProcess : Process (Entry UnresolvedFrames) 7 where
  profiler := { Profiler.new with blocklistSegments := [(100, 200)] }
  missedSamples := 42
  action := fun _ => ⟨.sigDfl, SaFlags.empty, []⟩
  pending := fun _ => false
  timers := fun _ => ⟨Timeval.zero, Timeval.zero⟩

/-- A tick at an address, on a thread whose name is one letter. -/
def tickAt (lockHeld : Bool) (addr : ℕ) (letter : UInt8) : Tick where
  lockHeld := lockHeld
  ucontext := some addr
  trace := [⟨addr, 4096⟩, ⟨8193, 8192⟩]
  currentThread := 7
  getname := (0, (Vector.replicate maxThreadName 0).set 0 letter)
  timestamp := 1
  writes := []

/-- Every exit of the handler once, the sample twice, and a report in between. -/
def fiveTicks : List SessionEvent :=
  [.tick (tickAt false 50 97), .tick (tickAt true 50 97), .tick (tickAt false 150 97),
    .buildUnresolved ⟨none, default⟩, .tick (tickAt false 50 98), .tick (tickAt false 51 97)]

theorem accounting_of_run_fiveTicks :
    letI : MemImage (Entry UnresolvedFrames) (Entry UnresolvedFrames) := MemImage.cell _
    ∃ s : Session (Entry UnresolvedFrames) 7,
      Machine.run (step ⟨false, 128⟩ List.sum)
        ⟨(idleProcess.start .cpu [[98]] Answers.ok).1, []⟩ fiveTicks = some s ∧
      s.Accounted 5 := by
  let _ : MemImage (Entry UnresolvedFrames) (Entry UnresolvedFrames) := MemImage.cell _
  have hrun : (Machine.run (step ⟨false, 128⟩ List.sum)
      ⟨(idleProcess.start .cpu [[98]] Answers.ok).1, []⟩ fiveTicks).isSome = true := by
    decide +kernel
  obtain ⟨s, hs⟩ := Option.isSome_iff_exists.mp hrun
  have hw : ∀ e ∈ fiveTicks, e.WritesSucceed := by
    simp [fiveTicks, SessionEvent.WritesSucceed, tickAt]
  have hempty : idleProcess.profiler.data = Collector.new := rfl
  have hstart : idleProcess.start .cpu [[98]] Answers.ok =
      ((idleProcess.start .cpu [[98]] Answers.ok).1, .ok ()) := rfl
  exact ⟨s, hs, (accounting_of_run hempty hstart hw hs).1⟩

end Session

end Rpprof
