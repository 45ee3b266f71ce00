import Rpprof.Export.Displayed
import Rpprof.Profiler.Lifecycle

/-!
# The helpers that profile for a while

`profile`, `profile_with_frequency` and `profile_wall` start a session, sleep while the ticks of its
timer are delivered, build a report and drop their guard.  They may be called again and again, and
between other uses of the profiler, some of which may have failed.

A report that a helper returns is about the ticks of its own sleep, whatever came before; and
helpers that are called in turn, whose system calls succeed, all return one.

## Main definitions

* `Host.report` — a report, while a guard is there.
* `Host.profileBuilt` — the body that the helpers share.
* `Host.AboutItsSleep` — what a helper's report says.

## Main results

* `Host.aboutItsSleep_of_profileBuilt` — **a report is about the sleep**, from any reachable state.
* `Host.profiled_in_turn` — **helpers called in turn each report their own sleep**.
-/

namespace Rpprof

namespace HostEvent

/-- Signals that are delivered one after the other. -/
def ticks (l : List (Signal × Tick)) : List HostEvent := l.map fun t => .tick t.1 t.2

end HostEvent

/-- What a call of a helper meets: the answers to its system calls, the clocks, the signals that are
delivered while it sleeps and while it drops its guard, and the symbols. -/
structure Sleep where
  starting : Answers
  now : ℕ
  instant : ℕ
  asleep : List (Signal × Tick)
  wake : ℕ
  resolver : Resolver
  dropping : List (Signal × Tick)
  stopping : Answers

namespace Host

variable {β : Type*} {n : ℕ} [MemImage β (Entry UnresolvedFrames)] [NeZero n]

omit [NeZero n] in
/-- `guard.report().build()`, at an instant. -/
def report (h : Host β n) (g : ProfilerGuard) (r : Resolver) (instant : ℕ) : Except Error Report :=
  match h.creation with
  | some (.ok ()) => (g.report instant).build r (.ok h.process.profiler) h.process.missedSamples
  | _ => .error .creatingError

omit [NeZero n] in
theorem report_of_tryIter {h : Host β n} (hcreated : h.creation = some (.ok ()))
    {entries : List (Entry UnresolvedFrames)}
    (hiter : h.process.profiler.data.tryIter = .ok entries) (g : ProfilerGuard) (r : Resolver)
    (instant : ℕ) :
    h.report g r instant = .ok ⟨aggregate ((g.report instant).resolvedKey r) entries,
      (g.report instant).timing, h.process.missedSamples⟩ := by
  rw [report, hcreated]
  exact ReportBuilder.build_of_tryIter hiter _ r _

variable (f : Features) (finish : List ℕ → ℕ)

/-- The body of the helpers: what they return is `none` for a panic of the timer. -/
def profileBuilt (b : ProfilerGuardBuilder) (c : Sleep) (h : Host β n) :
    Option (Host β n × Option (Except Error Report)) :=
  match h.build f b c.starting c.now c.instant with
  | (h₁, none) => some (h₁, none)
  | (h₁, some (.error e)) => some (h₁, some (.error e))
  | (h₁, some (.ok g)) =>
    match Machine.run (step f finish) h₁ (HostEvent.ticks c.asleep) with
    | none => none
    | some h₂ =>
      -- the guard is dropped after the report is built
      (Machine.run (step f finish) h₂
        (.drop 0 :: (HostEvent.ticks c.dropping ++ [.stop c.stopping]))).map
          fun h₃ => (h₃, some (h₂.report g c.resolver c.wake))

/-- `profile_with_frequency`. -/
def profileWithFrequency (frequency : ℤ) :=
  profileBuilt (β := β) (n := n) f finish { (default : ProfilerGuardBuilder) with
    frequency := frequency }

/-- `profile`. -/
def profile := profileWithFrequency (β := β) (n := n) f finish 99

/-- `profile_wall`. -/
def profileWall :=
  profileBuilt (β := β) (n := n) f finish { (default : ProfilerGuardBuilder) with
    frequency := 99
    clockType := .wall }

/-! ### A session seen from outside -/

section Session

variable {f finish} {h h' : Host β n}

/-- Ticks that are delivered one after the other are a run of a session. -/
theorem run_ticks {l : List (Signal × Tick)} : ∀ {h h' : Host β n},
    Machine.run (step f finish) h (HostEvent.ticks l) = some h' →
    ∃ exits, exits.length = l.length ∧
      h' = { h with process := h'.process, exits := h.exits ++ exits } ∧
      ∀ before, Machine.run (Session.step f finish) ⟨h.process, before⟩
        (l.map fun t => SessionEvent.tick t.2) = some ⟨h'.process, before ++ exits⟩ := by
  induction l with
  | nil =>
    intro h h' hrun
    cases hrun
    refine ⟨[], rfl, ?_, fun before => ?_⟩
    · rw [List.append_nil]
    · rw [List.append_nil, List.map_nil, Machine.run_nil]
  | cons t l ih =>
    intro h h' hrun
    rw [HostEvent.ticks, List.map_cons, Machine.run_cons] at hrun
    obtain ⟨u, hu, hrest⟩ := Option.bind_eq_some_iff.mp hrun
    obtain ⟨exits, hlength, hh', hsession⟩ := ih hrest
    simp only [step] at hu
    split at hu
    · split at hu
      · next p exit hhandler =>
        cases hu
        refine ⟨exit :: exits, ?_, ?_, fun before => ?_⟩
        · rw [List.length_cons, List.length_cons, hlength]
        · rw [hh', List.append_assoc, List.singleton_append]
        · have hone : Session.step f finish ⟨h.process, before⟩ (.tick t.2) =
              some ⟨p, before ++ [exit]⟩ := by
            simp only [Session.step, hhandler]
          rw [List.map_cons, Machine.run_cons, hone, Option.bind_some, hsession,
            List.append_assoc, List.singleton_append]
      · cases hu
    · cases hu

omit [MemImage β (Entry UnresolvedFrames)] [NeZero n] in
/-- A build that hands out a guard. -/
theorem build_guard_cases {b : ProfilerGuardBuilder} {a : Answers} {now instant : ℕ}
    {g : ProfilerGuard} (hbuild : h.build f b a now instant = (h', some (.ok g))) :
    ∃ p, h.process.build f b a now instant = (p, some (.ok g)) ∧
      h' = { h with creation := some (.ok ()), process := p, guards := g :: h.guards } := by
  unfold build at hbuild
  split at hbuild
  · cases hbuild
  · split at hbuild
    · next p g' hp =>
      cases hbuild
      exact ⟨p, hp, rfl⟩
    · next hr _ =>
      cases hbuild
      exact (hr g rfl).elim

omit [MemImage β (Entry UnresolvedFrames)] [NeZero n] in
/-- **A session begins with nothing**: whatever came before, the guard is the only one, the
collector is new, and no tick has been missed. -/
theorem Phase.begins (hp : Phase h) {b : ProfilerGuardBuilder} {a : Answers} {now instant : ℕ}
    {g : ProfilerGuard} (hbuild : h.build f b a now instant = (h', some (.ok g))) :
    h'.creation = some (.ok ()) ∧ h'.guards = [g] ∧ h'.exits = h.exits ∧
      h'.process.profiler.data = Collector.new ∧ h'.process.missedSamples = 0 ∧
      g = ⟨some ⟨b.frequency, b.clockType, now, instant⟩⟩ := by
  obtain ⟨p, hp', rfl⟩ := build_guard_cases hbuild
  obtain ⟨s₁, hstart, rfl, hg⟩ := Process.build_spec hp'
  obtain ⟨hrun, -, hmissed, hdata⟩ := Process.start_spec hstart
  obtain ⟨hclean, hguards, -⟩ := hp.of_not_running hrun
  refine ⟨rfl, ?_, rfl, hdata.trans hclean.data, hmissed, hg⟩
  show g :: h.guards = [g]
  rw [hguards]

/-- What is sampled from then on. -/
theorem made_of_ticks {exits : List Exit} {l : List (Signal × Tick)}
    (hdata : h.process.profiler.data = Collector.new)
    (hsession : Machine.run (Session.step f finish) ⟨h.process, []⟩
      (l.map fun t => SessionEvent.tick t.2) = some ⟨h'.process, exits⟩) :
    h'.process.profiler.Made (UnresolvedFrames.hash finish) (exits.filterMap Exit.frames?) :=
  Session.made_of_run (s := ⟨h.process, []⟩) (Profiler.made_nil _ hdata) hsession

omit [NeZero n] in
/-- One event of a session counts a tick that is missed. -/
theorem missed_step [NeZero n] {s s' : Session β n} {e : SessionEvent}
    (h : s.process.missedSamples = s.exits.countP Exit.isMissed)
    (hstep : s.step f finish e = some s') :
    s'.process.missedSamples = s'.exits.countP Exit.isMissed := by
  obtain ⟨-, rfl⟩ | ⟨t, process, exit, rfl, hhandler, rfl⟩ := Session.step_cases hstep
  · exact h
  · rw [List.countP_append]
    rcases Process.perfSignalHandler_cases f _ hhandler with
      ⟨rfl, rfl⟩ | ⟨rfl, rfl⟩ | ⟨rfl, rfl⟩ | ⟨frames, rfl, rfl⟩ <;>
      simp [h, Exit.isMissed]

omit [NeZero n] in
/-- There is nothing to account for when a session begins. -/
theorem keeps_of_begin [NeZero n] (hdata : h.process.profiler.data = Collector.new)
    (hmissed : h.process.missedSamples = 0) : Session.Keeps ⟨h.process, []⟩ := by
  refine ⟨⟨[], ?_, fun c hc => absurd hc List.not_mem_nil, rfl⟩, hmissed⟩
  rw [hdata]
  exact Collector.keeps_new

/-- If its writes succeed, the account is kept. -/
theorem keeps_of_ticks {before exits : List Exit} {l : List (Signal × Tick)}
    (hkeeps : Session.Keeps ⟨h.process, before⟩) (hw : ∀ t ∈ l, ∀ w ∈ t.2.writes, w.Succeeds)
    (hsession : Machine.run (Session.step f finish) ⟨h.process, before⟩
      (l.map fun t => SessionEvent.tick t.2) = some ⟨h'.process, exits⟩) :
    Session.Keeps ⟨h'.process, exits⟩ := by
  have hwrites : ∀ e ∈ l.map fun t => SessionEvent.tick t.2, e.WritesSucceed := by
    intro e he
    obtain ⟨t, ht, rfl⟩ := List.mem_map.mp he
    exact hw t ht
  exact (Session.keeps_of_run hkeeps hwrites hsession).1

omit [NeZero n] in
/-- What is accounted for can be read back. -/
theorem exists_tryIter {exits : List Exit} (hkeeps : Session.Keeps ⟨h.process, exits⟩) :
    ∃ entries, h.process.profiler.data.tryIter = .ok entries := by
  obtain ⟨calls, hcalls, -, -⟩ := hkeeps.collected
  obtain ⟨entries, hiter, -, -⟩ := hcalls.tryIter
  exact ⟨entries, hiter⟩

/-- A guard is dropped in two steps, with signals in between. -/
theorem drop_cases {l : List (Signal × Tick)} {a : Answers}
    (hrun : Machine.run (step f finish) h (.drop 0 :: (HostEvent.ticks l ++ [.stop a])) = some h') :
    ∃ (u : Host β n) (rest : List Exit), (Phase h → Phase u) ∧ 0 < u.dropped ∧ h' = u.stop a ∧
      rest.length = l.length ∧ h'.exits = h.exits ++ rest := by
  rw [Machine.run_cons] at hrun
  obtain ⟨t, ht, hrun⟩ := Option.bind_eq_some_iff.mp hrun
  rw [Machine.run_append] at hrun
  obtain ⟨u, hu, hrun⟩ := Option.bind_eq_some_iff.mp hrun
  rw [Machine.run_cons] at hrun
  obtain ⟨v, hv, hlast⟩ := Option.bind_eq_some_iff.mp hrun
  rw [Machine.run_nil, Option.some.injEq] at hlast
  subst hlast
  have hphase : Phase h → Phase u := fun hp =>
    (Machine.reachable_of_run hu).invariant (hp.step ht) fun _ _ _ hp _ hstep => hp.step hstep
  obtain ⟨rest, hlength, hexits, -⟩ := run_ticks hu
  simp only [step] at ht hv
  split at ht
  · cases ht
    split at hv
    · next hpos =>
      cases hv
      refine ⟨u, rest, hphase, hpos, rfl, hlength, ?_⟩
      show u.exits = h.exits ++ rest
      rw [hexits]
    · cases hv
  · cases ht

end Session

/-! ### What a report says -/

/-- The report says what happened while the call slept: it is of these choices and of this time, the
ticks are accounted for, and its exports show every stack as often as it was sampled. -/
structure AboutItsSleep (b : ProfilerGuardBuilder) (c : Sleep) (report : Report)
    (exits : List Exit) : Prop where
  timing : report.timing = ⟨b.frequency, c.now, c.wake - c.instant, b.clockType⟩
  ticks : exits.length = c.asleep.length
  accounted : totalSamples report.data + exits.countP Exit.isAddressBlocked +
    exits.countP Exit.isThreadBlocked + report.missedSamples = c.asleep.length
  displays : 0 < b.frequency → (exits.filterMap Exit.frames?).length * 1000000000 < 2 ^ 63 →
    (∀ x ∈ exits.filterMap Exit.frames?, ∀ y ∈ exits.filterMap Exit.frames?, (x == y) = true →
      (⟨none, report.timing⟩ : ReportBuilder).looks c.resolver x =
        (⟨none, report.timing⟩ : ReportBuilder).looks c.resolver y) →
    report.Displays c.resolver.demangle ((⟨none, report.timing⟩ : ReportBuilder).looks c.resolver)
      (exits.filterMap Exit.frames?)

section Reports

variable {f finish} {h h' : Host β n} {b : ProfilerGuardBuilder} {c : Sleep}

/-- A report that is built after the sleep. -/
theorem aboutItsSleep_of_report {h₁ h₂ : Host β n} {g : ProfilerGuard} {exits : List Exit}
    {report : Report} (hp : Phase h)
    (hbuild : h.build f b c.starting c.now c.instant = (h₁, some (.ok g)))
    (hlength : exits.length = c.asleep.length)
    (hsession : Machine.run (Session.step f finish) ⟨h₁.process, []⟩
      (c.asleep.map fun t => SessionEvent.tick t.2) = some ⟨h₂.process, exits⟩)
    (hreport : h₂.report g c.resolver c.wake = .ok report) :
    AboutItsSleep b c report exits := by
  obtain ⟨-, -, -, hdata, hmissed, hg⟩ := hp.begins hbuild
  have hmade := made_of_ticks hdata hsession
  have hcount : h₂.process.missedSamples = exits.countP Exit.isMissed :=
    (Machine.reachable_of_run hsession).invariant
      (I := fun s => s.process.missedSamples = s.exits.countP Exit.isMissed) hmissed
      fun _ _ _ h _ hstep => missed_step h hstep
  rw [Host.report] at hreport
  split at hreport
  · have htiming : g.report c.wake =
        ⟨none, ⟨b.frequency, c.now, c.wake - c.instant, b.clockType⟩⟩ := by
      rw [hg]
      rfl
    rw [htiming] at hreport
    have hbuilt : report.timing = ⟨b.frequency, c.now, c.wake - c.instant, b.clockType⟩ ∧
        report.missedSamples = h₂.process.missedSamples := by
      simp only [ReportBuilder.build] at hreport
      split at hreport
      · cases hreport
      · cases hreport
        exact ⟨rfl, rfl⟩
    refine ⟨hbuilt.1, hlength, ?_, fun hpos hmax hsame => ?_⟩
    · have htotal := (hmade.reportsOnly.resolved _ _ _ _ hreport).1
      have hexits := Session.length_exits (⟨h₂.process, exits⟩ : Session β n)
      rw [Session.sampled] at hexits
      rw [htotal, hbuilt.2, hcount, ← hlength]
      exact hexits
    · rw [← hbuilt.1] at hreport
      refine Session.displays_of_made hmade hreport hsame ?_ hmax
      rw [hbuilt.1]
      exact hpos
  · cases hreport

/-- **A report that a helper returns is about its own sleep**, whatever came before: other
sessions, and builds, drops and helpers that failed. -/
theorem aboutItsSleep_of_profileBuilt {original : Signal → SigAction}
    (horig : ∀ sig, (original sig).handler ≠ .perfSignalHandler)
    (hreach : Machine.Reachable (step f finish) (init original) h) {report : Report}
    (hcall : h.profileBuilt f finish b c = some (h', some (.ok report))) :
    ∃ exits rest, h'.exits = h.exits ++ exits ++ rest ∧ rest.length = c.dropping.length ∧
      AboutItsSleep b c report exits := by
  have hp := Phase.of_reachable horig hreach
  unfold profileBuilt at hcall
  split at hcall
  · cases hcall
  · cases hcall
  · next h₁ g hbuild =>
    split at hcall
    · cases hcall
    · next h₂ hsleep =>
      obtain ⟨h₃, hdrop, hresult⟩ := Option.map_eq_some_iff.mp hcall
      rw [Prod.mk.injEq, Option.some.injEq] at hresult
      obtain ⟨rfl, hreport⟩ := hresult
      obtain ⟨exits, hlength, hh₂, hsession⟩ := run_ticks hsleep
      obtain ⟨-, rest, -, -, -, hrest, hexits⟩ := drop_cases hdrop
      refine ⟨exits, rest, ?_, hrest,
        aboutItsSleep_of_report hp hbuild hlength (hsession []) hreport⟩
      have hbegin : h₁.exits = h.exits := (hp.begins hbuild).2.2.1
      rw [hexits, hh₂, hbegin]

/-- A helper that sleeps while so many ticks of a signal are delivered. -/
def sleepFor (sig : Signal) (ticks : ℕ) : Sleep where
  starting := Answers.ok
  now := 5
  instant := 10
  asleep := (List.range ticks).map fun i => (sig, Session.tickAt (i == 1) 50 97)
  wake := 20
  resolver := ReportBuilder.numbered
  dropping := [(sig, Session.tickAt false 50 97)]
  stopping := Answers.ok

/-- Two builds whose handlers cannot be registered. -/
def afterFailure : List HostEvent :=
  [.build default ⟨.error 22, .ok ()⟩ 0 0, .build ⟨0, .wall, [], false, []⟩ ⟨.error 22, .ok ()⟩ 1 1]

theorem foreign_alarmed : ∀ sig, (World.alarmed sig).handler ≠ .perfSignalHandler := by
  intro sig
  cases sig <;> decide

theorem aboutItsSleep_of_profileBuilt_afterFailure :
    letI : MemImage (Entry UnresolvedFrames) (Entry UnresolvedFrames) := MemImage.cell _
    ∃ (h h' : Host (Entry UnresolvedFrames) 7) (report : Report) (exits rest : List Exit),
      Machine.run (step ⟨false, 128⟩ List.sum) (init World.alarmed) afterFailure = some h ∧
      h.profile ⟨false, 128⟩ List.sum (sleepFor .sigprof 3) = some (h', some (.ok report)) ∧
      h'.exits = h.exits ++ exits ++ rest ∧ rest.length = 1 ∧
      AboutItsSleep default (sleepFor .sigprof 3) report exits := by
  let _ : MemImage (Entry UnresolvedFrames) (Entry UnresolvedFrames) := MemImage.cell _
  have hend : ((Machine.run (step ⟨false, 128⟩ List.sum)
      (init World.alarmed : Host (Entry UnresolvedFrames) 7) afterFailure).bind fun h =>
        (h.profile ⟨false, 128⟩ List.sum (sleepFor .sigprof 3)).bind fun r =>
          r.2.bind Except.toOption).isSome = true := by decide +kernel
  obtain ⟨report, hreport⟩ := Option.isSome_iff_exists.mp hend
  obtain ⟨h, hh, hreport⟩ := Option.bind_eq_some_iff.mp hreport
  obtain ⟨⟨h', result⟩, hcall, hreport⟩ := Option.bind_eq_some_iff.mp hreport
  obtain ⟨r, rfl, hr⟩ := Option.bind_eq_some_iff.mp hreport
  cases r with
  | error e => cases hr
  | ok report =>
    obtain ⟨exits, rest, hexits, hrest, habout⟩ :=
      aboutItsSleep_of_profileBuilt foreign_alarmed (Machine.reachable_of_run hh) hcall
    exact ⟨h, h', report, exits, rest, hh, hcall, hexits, hrest, habout⟩

/-! ### Helpers called in turn -/

variable (f finish) in
/-- Calls of the helpers, one after the other, with what they return. -/
def profileInTurn : List (ProfilerGuardBuilder × Sleep) → Host β n →
    Option (Host β n × List (Option (Except Error Report)))
  | [], h => some (h, [])
  | (b, c) :: calls, h =>
    match h.profileBuilt f finish b c with
    | none => none
    | some (h', result) =>
      (profileInTurn calls h').map fun (h'', results) => (h'', result :: results)

/-- The frequency is not zero, and the system calls succeed. -/
structure Succeeds (b : ProfilerGuardBuilder) (c : Sleep) : Prop where
  frequency : b.frequency ≠ 0
  starting : c.starting.sigaction = .ok () ∧ c.starting.tempFile = .ok ()
  stopping : c.stopping.sigaction = .ok () ∧ c.stopping.tempFile = .ok ()
  writes : ∀ t ∈ c.asleep, ∀ w ∈ t.2.writes, w.Succeeds

/-- No session is on, and the profiler can be created. -/
def Idle (h : Host β n) : Prop :=
  Phase h ∧ h.process.profiler.running = false ∧ (h.creation = none ∨ h.creation = some (.ok ()))

omit [MemImage β (Entry UnresolvedFrames)] [NeZero n] in
/-- A build whose system calls succeed, while no session is on, hands out a guard. -/
theorem Idle.build (hidle : Idle h) {a : Answers} (ha : a.sigaction = .ok () ∧ a.tempFile = .ok ())
    (hb : b.frequency ≠ 0) (now instant : ℕ) :
    ∃ h₁ t, h.build f b a now instant = (h₁, some (.ok ⟨some t⟩)) := by
  obtain ⟨-, hrun, hcreation⟩ := hidle
  have hcreated : h.creation.getD a.tempFile = .ok () := by
    rcases hcreation with hnone | hok
    · rw [hnone, Option.getD_none, ha.2]
    · rw [hok, Option.getD_some]
  rcases Process.build_cases f b a now instant hrun with
    ⟨e, -, he, -⟩ | ⟨-, hzero, -⟩ | ⟨-, -, p, t, hbuild, -⟩
  · rw [ha.1] at he
    cases he
  · exact absurd hzero hb
  · exact ⟨_, t, build_of_guard hcreated hbuild⟩

/-- A helper whose system calls succeed, called while no session is on, returns a report of its
sleep and leaves none on. -/
theorem profiled_of_idle (hidle : Idle h) (hc : Succeeds b c)
    {result : Option (Except Error Report)}
    (hcall : h.profileBuilt f finish b c = some (h', result)) :
    Idle h' ∧ ∃ report exits rest, result = some (.ok report) ∧
      h'.exits = h.exits ++ (exits ++ rest) ∧ rest.length = c.dropping.length ∧
      AboutItsSleep b c report exits := by
  obtain ⟨h₁, t, hbuilt⟩ := hidle.build (f := f) hc.starting hc.frequency c.now c.instant
  have hp := hidle.1
  rw [profileBuilt, hbuilt] at hcall
  simp only at hcall
  split at hcall
  · cases hcall
  · next h₂ hsleep =>
    obtain ⟨h₃, hdrop, hresult⟩ := Option.map_eq_some_iff.mp hcall
    cases hresult
    obtain ⟨exits, hlength, hh₂, hsession⟩ := run_ticks hsleep
    obtain ⟨hcreated₁, -, hexits₁, hdata, hmissed, -⟩ := hp.begins hbuilt
    have hp₂ : Phase h₂ := by
      refine (Machine.reachable_of_run hsleep).invariant ?_ fun _ _ _ hp _ hstep => hp.step hstep
      have := hp.build b c.starting c.now c.instant (f := f)
      rwa [hbuilt] at this
    obtain ⟨entries, hiter⟩ :=
      exists_tryIter (keeps_of_ticks (keeps_of_begin hdata hmissed) hc.writes (hsession []))
    have hcreated₂ : h₂.creation = some (.ok ()) := by
      rw [hh₂]
      exact hcreated₁
    have hreport := report_of_tryIter hcreated₂ hiter ⟨some t⟩ c.resolver c.wake
    obtain ⟨u, rest, hpu, hpos, hstop, hrest, hexits⟩ := drop_cases hdrop
    obtain ⟨hcreatedu, hon, hguardsu, hdroppedu⟩ := (hpu hp₂).of_dropped hpos
    have hclean := (hon.stop c.stopping).1 hc.stopping
    refine ⟨⟨?_, ?_, Or.inr ?_⟩, _, exits, rest, congrArg some hreport, ?_, hrest,
      aboutItsSleep_of_report hp hbuilt hlength (hsession []) hreport⟩
    · rw [hstop]
      exact (hpu hp₂).stop hpos c.stopping
    · rw [hstop]
      exact hclean.running
    · rw [hstop]
      exact hcreatedu
    · rw [hexits, hh₂, hexits₁, List.append_assoc]

/-- **Helpers that are called in turn each report their own sleep**: if the system calls succeed,
every one of them returns a report, the ticks of the process are those of their sleeps and of their
drops, in order, and no session is on after the last. -/
theorem profiled_in_turn {calls : List (ProfilerGuardBuilder × Sleep)}
    (hcalls : ∀ call ∈ calls, Succeeds call.1 call.2) : ∀ {h h' : Host β n}, Idle h →
    ∀ {results : List (Option (Except Error Report))},
    profileInTurn f finish calls h = some (h', results) →
    ∃ parts : List (Report × List Exit × List Exit),
      results = parts.map (fun part => some (.ok part.1)) ∧
      List.Forall₂ (fun call part => AboutItsSleep call.1 call.2 part.1 part.2.1 ∧
        part.2.2.length = call.2.dropping.length) calls parts ∧
      h'.exits = h.exits ++ (parts.flatMap fun part => part.2.1 ++ part.2.2) ∧ Idle h' := by
  induction calls with
  | nil =>
    intro h h' hidle results hrun
    cases hrun
    refine ⟨[], rfl, .nil, ?_, hidle⟩
    rw [List.flatMap_nil, List.append_nil]
  | cons call calls ih =>
    intro h h' hidle results hrun
    obtain ⟨b, c⟩ := call
    rw [List.forall_mem_cons] at hcalls
    rw [profileInTurn] at hrun
    split at hrun
    · cases hrun
    · next h₁ result hcall =>
      obtain ⟨⟨h₂, results'⟩, hrest, heq⟩ := Option.map_eq_some_iff.mp hrun
      cases heq
      obtain ⟨hidle₁, report, exits, rest, rfl, hexits, hlength, habout⟩ :=
        profiled_of_idle hidle hcalls.1 hcall
      obtain ⟨parts, rfl, hparts, hexits', hidle'⟩ := ih hcalls.2 hidle₁ hrest
      refine ⟨(report, exits, rest) :: parts, rfl, .cons ⟨habout, hlength⟩ hparts, ?_, hidle'⟩
      rw [hexits', hexits, List.flatMap_cons, List.append_assoc]

/-- The processor for a while, then the wall clock, then the processor again. -/
def threeCalls : List (ProfilerGuardBuilder × Sleep) :=
  [(default, sleepFor .sigprof 3), ({ (default : ProfilerGuardBuilder) with clockType := .wall },
    sleepFor .sigalrm 2), (default, sleepFor .sigprof 0)]

theorem profiled_in_turn_threeCalls :
    letI : MemImage (Entry UnresolvedFrames) (Entry UnresolvedFrames) := MemImage.cell _
    ∃ (h' : Host (Entry UnresolvedFrames) 7) (parts : List (Report × List Exit × List Exit)),
      profileInTurn ⟨false, 128⟩ List.sum threeCalls (init World.alarmed) =
        some (h', parts.map fun part => some (.ok part.1)) ∧
      List.Forall₂ (fun call part => AboutItsSleep call.1 call.2 part.1 part.2.1 ∧
        part.2.2.length = call.2.dropping.length) threeCalls parts ∧
      h'.exits = [] ++ (parts.flatMap fun part => part.2.1 ++ part.2.2) ∧ Idle h' := by
  let _ : MemImage (Entry UnresolvedFrames) (Entry UnresolvedFrames) := MemImage.cell _
  have hend : (profileInTurn ⟨false, 128⟩ List.sum threeCalls
      (init World.alarmed : Host (Entry UnresolvedFrames) 7)).isSome = true := by decide +kernel
  obtain ⟨⟨h', results⟩, hresults⟩ := Option.isSome_iff_exists.mp hend
  have hcalls : ∀ call ∈ threeCalls, Succeeds call.1 call.2 := by
    have hsleep : ∀ (b : ProfilerGuardBuilder) sig ticks, b.frequency ≠ 0 →
        Succeeds b (sleepFor sig ticks) := by
      intro b sig ticks hb
      refine ⟨hb, ⟨rfl, rfl⟩, ⟨rfl, rfl⟩, fun t ht w hw => ?_⟩
      obtain ⟨i, -, rfl⟩ := List.mem_map.mp ht
      cases hw
    intro call hcall
    simp only [threeCalls, List.mem_cons, List.not_mem_nil, or_false] at hcall
    rcases hcall with rfl | rfl | rfl <;> exact hsleep _ _ _ (by decide)
  obtain ⟨parts, rfl, hparts, hexits, hidle⟩ := profiled_in_turn hcalls
    ⟨Phase.init foreign_alarmed, rfl, Or.inl rfl⟩ hresults
  exact ⟨h', parts, hresults, hparts, hexits, hidle⟩

end Reports

end Host

end Rpprof
