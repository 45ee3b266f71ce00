import Rpprof.Profiler.Samples
import Rpprof.Profiler.Signals

/-!
# Builds and drops that fail

Builds and drops of guards when the operating system does not do what it is asked to: the
temp file of the first collector, or of a later one, cannot be created, and the disposition
of a signal cannot be changed.  `build` holds the lock of the profiler from beginning to
end, and so does `stop`; each is one event here, with the answers it gets.

The profiler is created once.  What came of that is kept, an error too.

## Main definitions

* `Host`, `Host.build`, `Host.step` — the process, the guards, and the calls that fail.
* `Host.Phase` — nothing is on, one guard's session is on, or nobody can stop what is on.
* `Host.RejectionHarmless`, `Host.AllOrNothing`, `Host.Ends` — what one may expect of a
  build that is rejected, of one that hands back no guard, and of a drop.

## Main results

* `Host.Phase.step` — every event leads from phase to phase.
* `Host.rejectionHarmless_iff`, `Host.allOrNothing_iff`, `Host.stopsEnd_iff` — **exactly
  when the code does so**.
-/

namespace Rpprof

variable {β : Type*} {n : ℕ}

/-! ### Starting -/

namespace Process

/-- A session was started for the builder, on what there was. -/
structure StartedBy (b : ProfilerGuardBuilder) (p p' : Process β n) : Prop where
  running : p'.profiler.running = true
  clockType : p'.profiler.clockType = b.clockType
  saved : p'.profiler.oldSigaction = some (p.action b.clockType.signal)
  installed : (p'.action b.clockType.signal).handler = .perfSignalHandler
  elsewhere : ∀ sig, sig ≠ b.clockType.signal → p'.action sig = p.action sig
  data : p'.profiler.data = p.profiler.data

/-- Nothing was started, and what a session needs is as it was. -/
structure LeftAlone (p p' : Process β n) : Prop where
  running : p'.profiler.running = p.profiler.running
  saved : p'.profiler.oldSigaction = p.profiler.oldSigaction
  action : p'.action = p.action
  data : p'.profiler.data = p.profiler.data

variable {f : Features} {p : Process β n} {b : ProfilerGuardBuilder} {a : Answers}
  {now instant : ℕ}

/-- A build that finds a session running has overwritten two choices of it. -/
theorem build_of_running (h : p.profiler.running = true) :
    p.build f b a now instant = (p.configure f b, some (.error .running)) := by
  have hrun : (p.configure f b).profiler.running = true := h
  simp only [build, start, hrun, if_true]

/-- **What a build can do when nothing is running**: fail to register the handler, or start
a session, for which there is a guard unless the frequency is zero. -/
theorem build_cases (f : Features) (b : ProfilerGuardBuilder) (a : Answers) (now instant : ℕ)
    (h : p.profiler.running = false) :
    (∃ e p', a.sigaction = .error e ∧
      p.build f b a now instant = (p', some (.error (.nixError e))) ∧ LeftAlone p p') ∨
    (a.sigaction = .ok () ∧ b.frequency = 0 ∧
      ∃ p', p.build f b a now instant = (p', none) ∧ StartedBy b p p') ∨
    (a.sigaction = .ok () ∧ b.frequency ≠ 0 ∧
      ∃ p' t, p.build f b a now instant = (p', some (.ok ⟨some t⟩)) ∧ StartedBy b p p') := by
  have hrun : (p.configure f b).profiler.running = false := h
  cases ha : a.sigaction with
  | error e =>
    refine Or.inl ⟨e, (p.configure f b).choose b.clockType b.threadBlocklist, rfl, ?_, ?_⟩
    · simp [build, start, hrun, registerSignalHandler, sigaction, ha]
    · exact ⟨rfl, rfl, rfl, rfl⟩
  | ok u =>
    set q := (p.configure f b).choose b.clockType b.threadBlocklist with hq
    have hstart : (p.configure f b).start b.clockType b.threadBlocklist a =
        ((q.registerSignalHandler a).1.setRunning, .ok ()) := by
      simp [start, hrun, registerSignalHandler, sigaction, ha, hq]
    have hstarted : ∀ timers, StartedBy b p
        { (q.registerSignalHandler a).1.setRunning with timers := timers } := by
      intro timers
      constructor <;> simp [registerSignalHandler, sigaction, ha, setRunning, choose, configure,
        SigAction.profiling, hq]
      intro sig hne
      exact Function.update_of_ne hne ..
    by_cases hfreq : b.frequency = 0
    · refine Or.inr (Or.inl ⟨rfl, hfreq, _, ?_,
        hstarted (q.registerSignalHandler a).1.setRunning.timers⟩)
      simp only [build, hstart, Timer.withClockType, if_pos hfreq]
    · refine Or.inr (Or.inr ⟨rfl, hfreq, _, ⟨b.frequency, b.clockType, now, instant⟩, ?_,
        hstarted (setitimer (q.registerSignalHandler a).1.setRunning.timers b.clockType.which
          ⟨Timer.timeval b.frequency, Timer.timeval b.frequency⟩)⟩)
      simp only [build, hstart, Timer.withClockType, if_neg hfreq]

end Process

/-! ### The machine -/

/-- The process and its guards. -/
structure Host (β : Type*) (n : ℕ) where
  /-- What `Profiler::new` returned, once the first build has called it. -/
  creation : Option (Except IoError Unit)
  process : Process β n
  /-- The guards handed out. -/
  guards : List ProfilerGuard
  /-- The guards being dropped whose timer is gone. -/
  dropped : ℕ
  /-- How the invocations of the handler ended. -/
  exits : List Exit

/-- What happens next; `build` and `stop` with the answers they get. -/
inductive HostEvent where
  | build (b : ProfilerGuardBuilder) (a : Answers) (now instant : ℕ)
  /-- The guard at an index is dropped: its timer goes. -/
  | drop (i : ℕ)
  /-- A guard that is being dropped calls `stop`; an error is only logged. -/
  | stop (a : Answers)
  /-- A signal that the profiler handles is delivered. -/
  | tick (sig : Signal) (t : Tick)

namespace Host

/-- A process that has not used the profiler yet. -/
def init (original : Signal → SigAction) : Host β n where
  creation := none
  process := (World.init original).process
  guards := []
  dropped := 0
  exits := []

/-- `ProfilerGuardBuilder::build`; `none` is the panic of the timer, which unwinds. -/
def build (f : Features) (h : Host β n) (b : ProfilerGuardBuilder) (a : Answers)
    (now instant : ℕ) : Host β n × Option (Except Error ProfilerGuard) :=
  -- `trigger_lazy`
  match h.creation.getD a.tempFile with
  | .error e => ({ h with creation := some (.error e) }, some (.error .creatingError))
  | .ok () =>
    match h.process.build f b a now instant with
    | (p, some (.ok g)) => ({ h with
        creation := some (.ok ())
        process := p
        guards := g :: h.guards }, some (.ok g))
    | (p, r) => ({ h with creation := some (.ok ()), process := p }, r)

/-- The second half of `ProfilerGuard::drop`. -/
def stop (h : Host β n) (a : Answers) : Host β n :=
  { h with process := (h.process.stop a).1, dropped := h.dropped - 1 }

section Machine

variable [MemImage β (Entry UnresolvedFrames)] [NeZero n] (f : Features) (finish : List ℕ → ℕ)

/-- One event. -/
def step (h : Host β n) : HostEvent → Option (Host β n)
  | .build b a now instant => some (h.build f b a now instant).1
  | .drop i =>
    match h.guards[i]? with
    | some g => some { h with
        process := h.process.dropTimer g
        guards := h.guards.eraseIdx i
        dropped := h.dropped + 1 }
    | none => none
  | .stop a => if 0 < h.dropped then some (h.stop a) else none
  | .tick sig t =>
    if (h.process.action sig).handler = .perfSignalHandler then
      match h.process.perfSignalHandler f (UnresolvedFrames.hash finish) t with
      | some (p, exit) => some { h with process := p, exits := h.exits ++ [exit] }
      | none => none
    else none

end Machine

section Build

variable {f : Features} {h : Host β n} {b : ProfilerGuardBuilder} {a : Answers} {now instant : ℕ}

theorem build_of_error {e : IoError} (hc : h.creation.getD a.tempFile = .error e) :
    h.build f b a now instant =
      ({ h with creation := some (.error e) }, some (.error .creatingError)) := by
  simp only [build, hc]

theorem build_of_guard {p : Process β n} {g : ProfilerGuard}
    (hc : h.creation.getD a.tempFile = .ok ())
    (hbuild : h.process.build f b a now instant = (p, some (.ok g))) :
    h.build f b a now instant = ({ h with
      creation := some (.ok ())
      process := p
      guards := g :: h.guards }, some (.ok g)) := by
  simp only [build, hc, hbuild]

theorem build_of_no_guard {p : Process β n} {r : Option (Except Error ProfilerGuard)}
    (hc : h.creation.getD a.tempFile = .ok ()) (hr : ∀ g, r ≠ some (.ok g))
    (hbuild : h.process.build f b a now instant = (p, r)) :
    h.build f b a now instant = ({ h with creation := some (.ok ()), process := p }, r) := by
  simp only [build, hc, hbuild]

/-- A build that finds a session running is rejected, after it has overwritten two choices
of the session. -/
theorem build_of_running (hc : h.creation = some (.ok ()))
    (hrun : h.process.profiler.running = true) : h.build f b a now instant =
      ({ h with process := h.process.configure f b }, some (.error .running)) := by
  rw [build_of_no_guard (by rw [hc, Option.getD_some]) (by intro g hg; cases hg)
    (Process.build_of_running hrun), ← hc]

end Build

end Host

/-! ### Phases -/

/-- Nothing is on, and nothing is left of what was. -/
structure Process.Clean (p : Process β n) : Prop where
  running : p.profiler.running = false
  saved : p.profiler.oldSigaction = none
  action : ∀ sig, (p.action sig).handler ≠ .perfSignalHandler
  data : p.profiler.data = Collector.new

/-- A session is on, and can be stopped. -/
structure Process.On (p : Process β n) : Prop where
  running : p.profiler.running = true
  saved : ∃ old, p.profiler.oldSigaction = some old ∧ old.handler ≠ .perfSignalHandler
  elsewhere : ∀ sig, sig ≠ p.profiler.clockType.signal →
    (p.action sig).handler ≠ .perfSignalHandler

/-- Where the process is between builds and drops. -/
inductive Host.Phase (h : Host β n) : Prop where
  /-- Nothing is on. -/
  | off (clean : h.process.Clean) (guards : h.guards = []) (dropped : h.dropped = 0)
  /-- The session of a guard is on, which is there or is being dropped. -/
  | on (created : h.creation = some (.ok ())) (on : h.process.On)
      (one : h.guards.length + h.dropped = 1)
  /-- The profiler is running, and there is no guard that could stop it. -/
  | stuck (created : h.creation = some (.ok ())) (running : h.process.profiler.running = true)
      (guards : h.guards = []) (dropped : h.dropped = 0)

namespace Process

variable {p p' : Process β n} {b : ProfilerGuardBuilder} {a : Answers}

theorem Clean.of_leftAlone (h : p.Clean) (h' : LeftAlone p p') : p'.Clean where
  running := h'.running.trans h.running
  saved := h'.saved.trans h.saved
  action := by rw [h'.action]; exact h.action
  data := h'.data.trans h.data

theorem Clean.on_of_startedBy (h : p.Clean) (h' : StartedBy b p p') : p'.On where
  running := h'.running
  saved := ⟨_, h'.saved, h.action _⟩
  elsewhere := by
    intro sig hne
    rw [h'.clockType] at hne
    rw [h'.elsewhere sig hne]
    exact h.action sig

/-- **What `stop` does to a session**: it ends it if both calls it makes succeed, and else
leaves the profiler running. -/
theorem On.stop (h : p.On) (a : Answers) :
    (a.sigaction = .ok () ∧ a.tempFile = .ok () → (p.stop a).1.Clean) ∧
    (¬(a.sigaction = .ok () ∧ a.tempFile = .ok ()) →
      (p.stop a).1.profiler.running = true) := by
  obtain ⟨old, hold, hforeign⟩ := h.saved
  cases ha : a.sigaction with
  | error e =>
    refine ⟨(fun hok => by cases hok.1), fun _ => ?_⟩
    simp [Process.stop, h.running, unregisterSignalHandler, hold, Process.sigaction, ha]
  | ok u =>
    cases ht : a.tempFile with
    | error e =>
      refine ⟨(fun hok => by cases hok.2), fun _ => ?_⟩
      simp [Process.stop, h.running, unregisterSignalHandler, hold, Process.sigaction, ha,
        Process.init, ht]
    | ok u' =>
      refine ⟨fun _ => ?_, fun hno => absurd ⟨rfl, rfl⟩ hno⟩
      constructor <;> simp [Process.stop, h.running, unregisterSignalHandler, hold,
        Process.sigaction, ha, Process.init, ht]
      intro sig
      by_cases hsig : sig = p.profiler.clockType.signal
      · -- what was saved is restored, or ignored
        rw [hsig, Function.update_self]
        split
        · intro hperf
          cases hperf
        · exact hforeign
      · rw [Function.update_of_ne hsig]
        exact h.elsewhere sig hsig

/-- What matters of a session is left as it is by whatever changes its data and counters
only. -/
theorem On.congr (h : p.On) (hrun : p'.profiler.running = p.profiler.running)
    (hold : p'.profiler.oldSigaction = p.profiler.oldSigaction)
    (hclock : p'.profiler.clockType = p.profiler.clockType) (haction : p'.action = p.action) :
    p'.On where
  running := hrun.trans h.running
  saved := by rw [hold]; exact h.saved
  elsewhere := by rw [hclock, haction]; exact h.elsewhere

end Process

namespace Host.Phase

variable {f : Features} {finish : List ℕ → ℕ} {h h' : Host β n}

theorem init {original : Signal → SigAction}
    (horig : ∀ sig, (original sig).handler ≠ .perfSignalHandler) :
    Phase (Host.init original : Host β n) :=
  .off ⟨rfl, rfl, horig, rfl⟩ rfl rfl

/-- What is running was created. -/
theorem created_of_running (hp : Phase h) (hrun : h.process.profiler.running = true) :
    h.creation = some (.ok ()) := by
  cases hp with
  | off clean =>
    rw [clean.running] at hrun
    cases hrun
  | on created => exact created
  | stuck created => exact created

/-- Without a session nothing is left of any. -/
theorem of_not_running (hp : Phase h) (hrun : h.process.profiler.running = false) :
    h.process.Clean ∧ h.guards = [] ∧ h.dropped = 0 := by
  cases hp with
  | off clean guards dropped => exact ⟨clean, guards, dropped⟩
  | on _ on =>
    rw [on.running] at hrun
    cases hrun
  | stuck _ running =>
    rw [running] at hrun
    cases hrun

/-- A guard that is being dropped has a session that can be stopped. -/
theorem of_dropped (hp : Phase h) (hpos : 0 < h.dropped) :
    h.creation = some (.ok ()) ∧ h.process.On ∧ h.guards = [] ∧ h.dropped = 1 := by
  cases hp with
  | off _ _ dropped => omega
  | stuck _ _ _ dropped => omega
  | on created on one =>
    have hlength : h.guards.length = 0 := by omega
    exact ⟨created, on, List.eq_nil_of_length_eq_zero hlength, by omega⟩

theorem build (hp : Phase h) (b : ProfilerGuardBuilder) (a : Answers) (now instant : ℕ) :
    Phase (h.build f b a now instant).1 := by
  cases hrun : h.process.profiler.running with
  | true =>
    rw [Host.build_of_running (hp.created_of_running hrun) hrun]
    cases hp with
    | off clean =>
      rw [clean.running] at hrun
      cases hrun
    | on created on one => exact .on created (on.congr rfl rfl rfl rfl) one
    | stuck created running guards dropped => exact .stuck created running guards dropped
  | false =>
    obtain ⟨hclean, hguards, hdropped⟩ := hp.of_not_running hrun
    cases hc : h.creation.getD a.tempFile with
    | error e =>
      rw [Host.build_of_error hc]
      exact .off hclean hguards hdropped
    | ok u =>
      rcases Process.build_cases f b a now instant hrun with
        ⟨e, p, -, hbuild, halone⟩ | ⟨-, -, p, hbuild, hstarted⟩ | ⟨-, -, p, t, hbuild, hstarted⟩
      · rw [Host.build_of_no_guard hc (by intro g hg; cases hg) hbuild]
        exact .off (hclean.of_leftAlone halone) hguards hdropped
      · -- the timer panicked with the profiler running
        rw [Host.build_of_no_guard hc (by intro g hg; cases hg) hbuild]
        exact .stuck rfl hstarted.running hguards hdropped
      · rw [Host.build_of_guard hc hbuild]
        refine .on rfl (hclean.on_of_startedBy hstarted) ?_
        show (_ :: h.guards).length + h.dropped = 1
        rw [hguards, hdropped]
        rfl

theorem stop (hp : Phase h) (hpos : 0 < h.dropped) (a : Answers) : Phase (h.stop a) := by
  obtain ⟨hcreated, hon, hguards, hdropped⟩ := hp.of_dropped hpos
  have hlast : h.dropped - 1 = 0 := by omega
  by_cases hok : a.sigaction = .ok () ∧ a.tempFile = .ok ()
  · exact .off ((hon.stop a).1 hok) hguards hlast
  · -- whichever call failed, nobody is left to try again
    exact .stuck hcreated ((hon.stop a).2 hok) hguards hlast

variable [MemImage β (Entry UnresolvedFrames)] [NeZero n]

/-- **Every event leads from phase to phase.** -/
theorem step (hp : Phase h) {e : HostEvent} (hstep : h.step f finish e = some h') : Phase h' := by
  cases e with
  | build b a now instant =>
    cases hstep
    exact hp.build b a now instant
  | drop i =>
    simp only [Host.step] at hstep
    split at hstep
    · next g hg =>
      cases hstep
      obtain ⟨hlt, -⟩ := List.getElem?_eq_some_iff.mp hg
      cases hp with
      | off _ guards =>
        rw [guards] at hlt
        exact absurd hlt (Nat.not_lt_zero i)
      | stuck _ _ guards =>
        rw [guards] at hlt
        exact absurd hlt (Nat.not_lt_zero i)
      | on created on one =>
        refine .on created ?_ ?_
        · have hframe := Process.profiler_dropTimer h.process g
          exact on.congr (by rw [hframe]) (by rw [hframe]) (by rw [hframe])
            (Process.action_dropTimer h.process g)
        · show (h.guards.eraseIdx i).length + (h.dropped + 1) = 1
          rw [List.length_eraseIdx_of_lt hlt]
          omega
    · cases hstep
  | stop a =>
    simp only [Host.step] at hstep
    split at hstep
    · next hpos =>
      cases hstep
      exact hp.stop hpos a
    · cases hstep
  | tick sig t =>
    simp only [Host.step] at hstep
    split at hstep
    · next hperf =>
      split at hstep
      · next p exit hrun =>
        cases hstep
        obtain ⟨hrunning, hold, hclock, haction⟩ := Process.perfSignalHandler_frame f _ hrun
        cases hp with
        | off clean => exact absurd hperf (clean.action sig)
        | on created on one => exact .on created (on.congr hrunning hold hclock haction) one
        | stuck created running guards dropped =>
          exact .stuck created (hrunning.trans running) guards dropped
      · cases hstep
    · cases hstep

theorem of_reachable {original : Signal → SigAction}
    (horig : ∀ sig, (original sig).handler ≠ .perfSignalHandler)
    (hreach : Machine.Reachable (Host.step f finish) (Host.init original) h) : Phase h :=
  hreach.invariant (Phase.init horig) fun _ _ _ hp _ hstep => hp.step hstep

end Host.Phase

namespace Host

variable {f : Features} {finish : List ℕ → ℕ} {h h' : Host β n}

/-! ### Builds that are rejected -/

/-- What is running was created. -/
def Created (h : Host β n) : Prop :=
  h.process.profiler.running = true → h.creation = some (.ok ())

/-- A build while a session is running returns `Err(Error::Running)` and leaves everything
as it was. -/
def Undisturbed (f : Features) (h : Host β n) : HostEvent → Prop
  | .build b a now instant => h.process.profiler.running = true →
      h.build f b a now instant = (h, some (.error .running))
  | .drop _ | .stop _ | .tick _ _ => True

/-- A build while a session is running asks for the blocked libraries of the session, and
for its stack. -/
def SameChoices (f : Features) (h : Host β n) : HostEvent → Prop
  | .build b _ _ _ => h.process.profiler.running = true →
      b.blocklistSegments = h.process.profiler.blocklistSegments ∧
        (f.framePointer = true → b.onStack = h.process.profiler.onStack)
  | .drop _ | .stop _ | .tick _ _ => True

/-- The event is a build, and a session is running. -/
def rejects (h : Host β n) : HostEvent → Bool
  | .build _ _ _ _ => h.process.profiler.running
  | .drop _ | .stop _ | .tick _ _ => false

section Rejected

variable [MemImage β (Entry UnresolvedFrames)] [NeZero n]

/-- A run without its rejected builds. -/
def withoutRejected (f : Features) (finish : List ℕ → ℕ) : Host β n → List HostEvent →
    List HostEvent
  | _, [] => []
  | h, e :: es =>
    match h.step f finish e with
    | none => e :: es
    | some h' =>
      if h.rejects e then withoutRejected f finish h' es
      else e :: withoutRejected f finish h' es

/-- Rejected builds disturb nothing, and the run without them leads to the same state, with
the same ticks recorded in it. -/
def RejectionHarmless (f : Features) (finish : List ℕ → ℕ) (h : Host β n)
    (es : List HostEvent) : Prop :=
  Machine.Throughout (step f finish) (Undisturbed f) h es ∧
    Machine.run (step f finish) h (withoutRejected f finish h es) =
      Machine.run (step f finish) h es

theorem run_withoutRejected (es : List HostEvent) : ∀ h : Host β n,
    Machine.Throughout (step f finish) (Undisturbed f) h es →
    Machine.run (step f finish) h (withoutRejected f finish h es) =
      Machine.run (step f finish) h es := by
  induction es with
  | nil => exact fun _ _ => rfl
  | cons e es ih =>
    intro h hall
    rw [withoutRejected]
    cases hstep : h.step f finish e with
    | none => rfl
    | some h' =>
      obtain ⟨hkeep, hrest⟩ := hall h' hstep
      simp only
      split
      · next hrejects =>
        cases e with
        | build b a now instant =>
          -- the build changed nothing
          have hsame : h' = h := by
            cases hstep
            rw [hkeep hrejects]
          rw [Machine.run_cons, hstep, Option.bind_some, hsame]
          exact ih h (hsame ▸ hrest)
        | drop i => cases hrejects
        | stop a => cases hrejects
        | tick sig t => cases hrejects
      · rw [Machine.run_cons, Machine.run_cons, hstep, Option.bind_some, Option.bind_some]
        exact ih h' hrest

/-- Only a build that goes through sets the profiler running. -/
theorem Created.step (hc : h.Created) {e : HostEvent} (hstep : h.step f finish e = some h') :
    h'.Created := by
  cases e with
  | build b a now instant =>
    cases hstep
    cases hcreation : h.creation.getD a.tempFile with
    | error e =>
      rw [build_of_error hcreation]
      intro hrun
      rw [hc hrun] at hcreation
      cases hcreation
    | ok u =>
      intro _
      simp only [build, hcreation]
      split <;> rfl
  | drop i =>
    simp only [Host.step] at hstep
    split at hstep
    · cases hstep
      intro hrun
      apply hc
      rwa [Process.profiler_dropTimer] at hrun
    · cases hstep
  | stop a =>
    simp only [Host.step] at hstep
    split at hstep
    · cases hstep
      intro hrun
      apply hc
      by_contra hno
      rw [stop, Process.stop, if_neg hno] at hrun
      exact hno hrun
    · cases hstep
  | tick sig t =>
    simp only [Host.step] at hstep
    split at hstep
    · split at hstep
      · next hrun' =>
        cases hstep
        intro hrun
        apply hc
        rw [← (Process.perfSignalHandler_frame f _ hrun').1]
        exact hrun
      · cases hstep
    · cases hstep

omit [MemImage β (Entry UnresolvedFrames)] [NeZero n] in
theorem configure_eq_iff (p : Process β n) (b : ProfilerGuardBuilder) :
    p.configure f b = p ↔ b.blocklistSegments = p.profiler.blocklistSegments ∧
      (f.framePointer = true → b.onStack = p.profiler.onStack) := by
  constructor
  · intro hsame
    refine ⟨congrArg (fun p => p.profiler.blocklistSegments) hsame, fun hpointer => ?_⟩
    have hstack := congrArg (fun p => p.profiler.onStack) hsame
    simp only [Process.configure, if_pos hpointer] at hstack
    exact hstack
  · rintro ⟨hsegments, hstack⟩
    rw [Process.configure, hsegments]
    split
    · next hpointer => rw [hstack hpointer]
    · rfl

/-- **When rejected builds disturb nothing**: exactly in the runs in which each of them asks
for the blocked libraries, and for the stack, of the session it finds. -/
theorem rejectionHarmless_iff (f : Features) (finish : List ℕ → ℕ)
    (original : Signal → SigAction) (es : List HostEvent) :
    RejectionHarmless f finish (init original : Host β n) es ↔
      Machine.Throughout (step f finish) (SameChoices f) (init original : Host β n) es := by
  have hinit : (init original : Host β n).Created := by
    intro hrun
    cases hrun
  rw [← Machine.throughout_congr (I := Created) (C := Undisturbed f) (D := SameChoices f)
    (fun _ _ _ hc hstep => hc.step hstep) ?_ es _ hinit]
  · exact ⟨fun hboth => hboth.1, fun hall => ⟨hall, run_withoutRejected es _ hall⟩⟩
  · intro s e s' hc _
    cases e with
    | build b a now instant =>
      refine forall_congr' fun hrun => ?_
      rw [build_of_running (hc hrun) hrun, ← configure_eq_iff]
      constructor
      · intro hsame
        exact congrArg (fun r => r.1.process) hsame
      · intro hsame
        rw [hsame]
    | drop i => exact Iff.rfl
    | stop a => exact Iff.rfl
    | tick sig t => exact Iff.rfl

instance (f : Features) (h : Host β n) : DecidablePred (SameChoices f h)
  | .build b _ _ _ => inferInstanceAs (Decidable (h.process.profiler.running = true →
      b.blocklistSegments = h.process.profiler.blocklistSegments ∧
        (f.framePointer = true → b.onStack = h.process.profiler.onStack)))
  | .drop _ | .stop _ | .tick _ _ => inferInstanceAs (Decidable True)

/-- A session with blocked libraries, a build that is rejected and asks for the same, and a tick in
one of them. -/
def agreed : List HostEvent :=
  [.build ⟨99, .cpu, [], false, [(100, 200)]⟩ Answers.ok 0 0,
    .build ⟨50, .wall, [[97]], true, [(100, 200)]⟩ Answers.ok 0 0,
    .tick .sigprof (Session.tickAt false 150 97)]

theorem rejectionHarmless_iff_agreed :
    letI : MemImage (Entry UnresolvedFrames) (Entry UnresolvedFrames) := MemImage.cell _
    RejectionHarmless ⟨false, 128⟩ List.sum
        (init World.alarmed : Host (Entry UnresolvedFrames) 7) agreed ∧
      (withoutRejected ⟨false, 128⟩ List.sum
        (init World.alarmed : Host (Entry UnresolvedFrames) 7) agreed).length = 2 := by
  let _ : MemImage (Entry UnresolvedFrames) (Entry UnresolvedFrames) := MemImage.cell _
  exact ⟨(rejectionHarmless_iff ⟨false, 128⟩ List.sum World.alarmed agreed).mpr
    (by decide +kernel), by decide +kernel⟩

/-- A session, a build that is rejected and asks for other blocked libraries, and a tick in
one of them. -/
def overwritten : List HostEvent :=
  [.build ⟨99, .cpu, [], false, []⟩ Answers.ok 0 0,
    .build ⟨99, .cpu, [], false, [(100, 200)]⟩ Answers.ok 0 0,
    .tick .sigprof (Session.tickAt false 150 97)]

/-- The tick is lost to the blocked libraries of the rejected builder. -/
theorem overwritten_not_harmless :
    letI : MemImage (Entry UnresolvedFrames) (Entry UnresolvedFrames) := MemImage.cell _
    ¬RejectionHarmless ⟨false, 128⟩ List.sum
      (init World.alarmed : Host (Entry UnresolvedFrames) 7) overwritten := by
  let _ : MemImage (Entry UnresolvedFrames) (Entry UnresolvedFrames) := MemImage.cell _
  let start : Host (Entry UnresolvedFrames) 7 := init World.alarmed
  let blocked : Option (Host (Entry UnresolvedFrames) 7) → Option ℕ :=
    Option.map fun h => h.exits.countP Exit.isAddressBlocked
  rintro ⟨-, hsame⟩
  have hwith : blocked (Machine.run (step ⟨false, 128⟩ List.sum) start overwritten) = some 1 := by
    decide +kernel
  have hwithout : blocked (Machine.run (step ⟨false, 128⟩ List.sum) start
      (withoutRejected ⟨false, 128⟩ List.sum start overwritten)) = some 0 := by
    decide +kernel
  rw [hsame, hwith] at hwithout
  cases hwithout

end Rejected

/-! ### Builds that hand back no guard -/

/-- If a build hands back no guard, nothing runs and no handler is installed afterwards,
and a later build with a valid frequency succeeds. -/
def AllOrNothing (f : Features) (r : Host β n × Option (Except Error ProfilerGuard)) : Prop :=
  (∀ g, r.2 ≠ some (.ok g)) →
    r.1.process.profiler.running = false ∧
    (∀ sig, (r.1.process.action sig).handler ≠ .perfSignalHandler) ∧
    ∀ (b : ProfilerGuardBuilder) now instant, 1 ≤ b.frequency → b.frequency ≤ 1000000 →
      ∃ g, (r.1.build f b Answers.ok now instant).2 = some (.ok g)

/-- With the profiler created and nothing running, a build whose calls succeed hands back a
guard. -/
theorem build_ok (hc : h.creation = some (.ok ())) (hrun : h.process.profiler.running = false)
    {b : ProfilerGuardBuilder} (hb : b.frequency ≠ 0) (now instant : ℕ) :
    ∃ p g, h.build f b Answers.ok now instant =
        ({ h with creation := some (.ok ()), process := p, guards := g :: h.guards },
          some (.ok g)) ∧ Process.StartedBy b h.process p := by
  have hcreated : h.creation.getD Answers.ok.tempFile = .ok () := by rw [hc, Option.getD_some]
  rcases Process.build_cases f b Answers.ok now instant hrun with
    ⟨e, -, he, -⟩ | ⟨-, hzero, -⟩ | ⟨-, -, p, t, hbuild, hstarted⟩
  · cases he
  · exact absurd hzero hb
  · exact ⟨p, ⟨some t⟩, build_of_guard hcreated hbuild, hstarted⟩

/-- **When a build is all or nothing**: exactly if the profiler could be created, and the
frequency is not zero or the handler cannot be registered anyway. -/
theorem allOrNothing_iff [MemImage β (Entry UnresolvedFrames)] [NeZero n]
    {original : Signal → SigAction} (horig : ∀ sig, (original sig).handler ≠ .perfSignalHandler)
    (hreach : Machine.Reachable (step f finish) (init original) h)
    (hrun : h.process.profiler.running = false) (b : ProfilerGuardBuilder) (a : Answers)
    (now instant : ℕ) : AllOrNothing f (h.build f b a now instant) ↔
      h.creation.getD a.tempFile = .ok () ∧ (b.frequency ≠ 0 ∨ a.sigaction ≠ .ok ()) := by
  obtain ⟨hclean, hguards, hdropped⟩ := (Phase.of_reachable horig hreach).of_not_running hrun
  cases hc : h.creation.getD a.tempFile with
  | error e =>
    rw [build_of_error hc]
    constructor
    · -- the error is kept, and found by every later build
      intro hall
      obtain ⟨-, -, hlater⟩ := hall (by intro g hg; cases hg)
      obtain ⟨g, hg⟩ := hlater ⟨99, .cpu, [], false, []⟩ 0 0 (by decide) (by decide)
      rw [build_of_error rfl] at hg
      cases hg
    · rintro ⟨hok, -⟩
      cases hok
  | ok u =>
    rcases Process.build_cases f b a now instant hrun
      with ⟨e, p, ha, hbuild, halone⟩ | ⟨ha, hzero, p, hbuild, hstarted⟩ |
        ⟨ha, hb, p, t, hbuild, hstarted⟩
    · rw [build_of_no_guard hc (by intro g hg; cases hg) hbuild]
      have hclean' := hclean.of_leftAlone halone
      have hfails : a.sigaction ≠ .ok () := by
        rw [ha]
        intro hok
        cases hok
      refine ⟨fun _ => ⟨rfl, Or.inr hfails⟩, fun _ _ => ⟨hclean'.running, hclean'.action, ?_⟩⟩
      intro b' now' instant' hpos _
      obtain ⟨p', g, hbuild', -⟩ := build_ok (f := f) (h := { h with
        creation := some (.ok ())
        process := p }) rfl hclean'.running (b := b') (by omega) now' instant'
      exact ⟨g, by rw [hbuild']⟩
    · -- the panic: the profiler is running
      rw [build_of_no_guard hc (by intro g hg; cases hg) hbuild]
      constructor
      · intro hall
        obtain ⟨hoff, -⟩ := hall (by intro g hg; cases hg)
        rw [hstarted.running] at hoff
        cases hoff
      · rintro ⟨-, hb | hfails⟩
        · exact absurd hzero hb
        · exact absurd ha hfails
    · rw [build_of_guard hc hbuild]
      exact ⟨fun _ => ⟨rfl, Or.inl hb⟩, fun _ hno => absurd rfl (hno ⟨some t⟩)⟩

/-- The handler cannot be registered: there is no guard, and nothing is left on. -/
theorem allOrNothing_iff_refused :
    letI : MemImage (Entry UnresolvedFrames) (Entry UnresolvedFrames) := MemImage.cell _
    AllOrNothing ⟨false, 128⟩ ((init World.alarmed : Host (Entry UnresolvedFrames) 7).build
        ⟨false, 128⟩ ⟨0, .wall, [], false, []⟩ ⟨.error 22, .ok ()⟩ 0 0) ∧
      ((init World.alarmed : Host (Entry UnresolvedFrames) 7).build
        ⟨false, 128⟩ ⟨0, .wall, [], false, []⟩ ⟨.error 22, .ok ()⟩ 0 0).2 =
          some (.error (.nixError 22)) := by
  let _ : MemImage (Entry UnresolvedFrames) (Entry UnresolvedFrames) := MemImage.cell _
  have horig : ∀ sig, (World.alarmed sig).handler ≠ .perfSignalHandler := by
    intro sig
    cases sig <;> decide
  have hreach : Machine.Reachable (step ⟨false, 128⟩ List.sum) (init World.alarmed)
      (init World.alarmed : Host (Entry UnresolvedFrames) 7) := Machine.Reach.refl
  exact ⟨(allOrNothing_iff horig hreach rfl _ _ 0 0).mpr ⟨rfl, Or.inr (by decide)⟩, rfl⟩

/-- A build with frequency zero panics with its session on. -/
theorem build_zero_not_allOrNothing :
    ¬AllOrNothing ⟨false, 128⟩ ((init World.alarmed : Host (Entry UnresolvedFrames) 7).build
      ⟨false, 128⟩ ⟨0, .cpu, [], false, []⟩ Answers.ok 0 0) := by
  intro hall
  obtain ⟨hoff, -⟩ := hall (by intro g hg; cases hg)
  cases hoff

end Host

/-! ### Drops whose stop fails -/

namespace HostEvent

/-- If it is a build, its handler cannot be registered. -/
def RegistrationFails : HostEvent → Prop
  | build _ a _ _ => a.sigaction ≠ .ok ()
  | drop _ | stop _ | tick _ _ => True

/-- If it is a stop, the calls it makes succeed. -/
def StopSucceeds : HostEvent → Prop
  | stop a => a.sigaction = .ok () ∧ a.tempFile = .ok ()
  | build _ _ _ _ | drop _ | tick _ _ => True

end HostEvent

namespace Host

variable {f : Features} {finish : List ℕ → ℕ} {h h' : Host β n}
  [MemImage β (Entry UnresolvedFrames)] [NeZero n]

/-- The session is over: nothing runs, and the next build whose calls succeed hands back a
guard, if its frequency is not zero, and never finds a session running; the reports of its
session contain that session's own samples only. -/
def Ends (f : Features) (finish : List ℕ → ℕ) (h : Host β n) : Prop :=
  h.process.profiler.running = false ∧
    ∀ es h', (∀ e ∈ es, e.RegistrationFails) → Machine.run (step f finish) h es = some h' →
    ∀ b now instant,
      (h'.build f b Answers.ok now instant).2 ≠ some (.error .running) ∧
      (b.frequency ≠ 0 → ∃ g, (h'.build f b Answers.ok now instant).2 = some (.ok g)) ∧
      ∀ g, (h'.build f b Answers.ok now instant).2 = some (.ok g) →
        ∀ events s, Machine.run (Session.step f finish)
          ⟨(h'.build f b Answers.ok now instant).1.process, []⟩ events = some s →
          s.process.profiler.ReportsOnly s.sampled

/-- If the event is a stop, it ends the session. -/
def StopEnds (f : Features) (finish : List ℕ → ℕ) (h : Host β n) : HostEvent → Prop
  | .stop a => Ends f finish (h.stop a)
  | .build _ _ _ _ | .drop _ | .tick _ _ => True

/-- While handlers cannot be registered, what is off stays off. -/
theorem off_step (hp : Phase h) (hrun : h.process.profiler.running = false)
    (hc : h.creation = some (.ok ())) {e : HostEvent} (he : e.RegistrationFails)
    (hstep : h.step f finish e = some h') :
    h'.process.profiler.running = false ∧ h'.creation = some (.ok ()) := by
  obtain ⟨hclean, hguards, hdropped⟩ := hp.of_not_running hrun
  cases e with
  | build b a now instant =>
    have hcreated : h.creation.getD a.tempFile = .ok () := by rw [hc, Option.getD_some]
    cases hstep
    rcases Process.build_cases f b a now instant hrun
      with ⟨e, p, -, hbuild, halone⟩ | ⟨ha, -⟩ | ⟨ha, -⟩
    · rw [build_of_no_guard hcreated (by intro g hg; cases hg) hbuild]
      exact ⟨halone.running.trans hrun, rfl⟩
    · exact absurd ha he
    · exact absurd ha he
  | drop i =>
    simp only [step, hguards, List.getElem?_nil] at hstep
    cases hstep
  | stop a =>
    rw [step, hdropped] at hstep
    cases hstep
  | tick sig t =>
    rw [step, if_neg (hclean.action sig)] at hstep
    cases hstep

/-- A session that was stopped is over. -/
theorem ends_of_off (hp : Phase h) (hrun : h.process.profiler.running = false)
    (hc : h.creation = some (.ok ())) : Ends f finish h := by
  refine ⟨hrun, fun es h' hes hrun' b now instant => ?_⟩
  obtain ⟨hp', hoff, hc'⟩ : Phase h' ∧ h'.process.profiler.running = false ∧
      h'.creation = some (.ok ()) :=
    (Machine.Reach.of_run (C := fun _ e => e.RegistrationFails) (fun _ => hes) hrun').invariant
      (I := fun h => Phase h ∧ h.process.profiler.running = false ∧ h.creation = some (.ok ()))
      ⟨hp, hrun, hc⟩
      fun _ _ _ hI he hstep => ⟨hI.1.step hstep, off_step hI.1 hI.2.1 hI.2.2 he hstep⟩
  have hclean := (hp'.of_not_running hoff).1
  by_cases hb : b.frequency = 0
  · -- the panic of the timer
    have hcreated : h'.creation.getD Answers.ok.tempFile = .ok () := by
      rw [hc', Option.getD_some]
    rcases Process.build_cases f b Answers.ok now instant hoff with
      ⟨e, -, he, -⟩ | ⟨-, -, p, hbuild, -⟩ | ⟨-, hne, -⟩
    · cases he
    · rw [build_of_no_guard hcreated (by intro g hg; cases hg) hbuild]
      exact ⟨(by intro hno; cases hno), fun hne => absurd hb hne, fun g hg => by cases hg⟩
    · exact absurd hb hne
  · obtain ⟨p, g, hbuild, hstarted⟩ := build_ok (f := f) hc' hoff hb now instant
    rw [hbuild]
    refine ⟨(by intro hno; cases hno), fun _ => ⟨g, rfl⟩, fun _ _ events s hrun => ?_⟩
    -- the collector of the new session is new
    have hmade := Profiler.made_nil (UnresolvedFrames.hash finish)
      (hstarted.data.trans hclean.data)
    exact (Session.made_of_run hmade hrun).reportsOnly

/-- **When every drop ends its session**: exactly in the runs in which the calls that `stop`
makes succeed. -/
theorem stopsEnd_iff {original : Signal → SigAction}
    (horig : ∀ sig, (original sig).handler ≠ .perfSignalHandler) (es : List HostEvent) :
    Machine.Throughout (step f finish) (StopEnds f finish) (init original : Host β n) es ↔
      Machine.Throughout (step f finish) (fun _ e => e.StopSucceeds)
        (init original : Host β n) es := by
  refine Machine.throughout_congr (I := Phase) (fun _ _ _ hp hstep => hp.step hstep) ?_ es _
    (Phase.init horig)
  intro s e s' hp hstep
  cases e with
  | stop a =>
    simp only [step] at hstep
    split at hstep
    · next hpos =>
      obtain ⟨hcreated, hon, -, -⟩ := hp.of_dropped hpos
      constructor
      · rintro ⟨hoff, -⟩
        by_contra hfails
        have hrun := (hon.stop a).2 hfails
        rw [show (s.stop a).process.profiler.running = true from hrun] at hoff
        cases hoff
      · intro hok
        exact ends_of_off (hp.stop hpos a) ((hon.stop a).1 hok).running hcreated
    · cases hstep
  | build b a now instant => exact Iff.rfl
  | drop i => exact Iff.rfl
  | tick sig t => exact Iff.rfl

/-- A session with a tick, whose guard is dropped with the given answers to `stop`. -/
def stoppedWith (a : Answers) : List HostEvent :=
  [.build ⟨99, .cpu, [], false, []⟩ Answers.ok 0 0, .tick .sigprof World.anyTick, .drop 0, .stop a]

instance : DecidablePred HostEvent.StopSucceeds
  | .stop a => inferInstanceAs (Decidable (a.sigaction = .ok () ∧ a.tempFile = .ok ()))
  | .build _ _ _ _ | .drop _ | .tick _ _ => inferInstanceAs (Decidable True)

theorem stopsEnd_iff_ok :
    letI : MemImage (Entry UnresolvedFrames) (Entry UnresolvedFrames) := MemImage.cell _
    Machine.Throughout (step ⟨false, 128⟩ List.sum) (StopEnds ⟨false, 128⟩ List.sum)
        (init World.alarmed : Host (Entry UnresolvedFrames) 7) (stoppedWith Answers.ok) ∧
      (Machine.run (step ⟨false, 128⟩ List.sum)
        (init World.alarmed : Host (Entry UnresolvedFrames) 7) (stoppedWith Answers.ok)).map
          (fun h => (h.process.profiler.running, h.exits.length)) = some (false, 1) := by
  let _ : MemImage (Entry UnresolvedFrames) (Entry UnresolvedFrames) := MemImage.cell _
  have horig : ∀ sig, (World.alarmed sig).handler ≠ .perfSignalHandler := by
    intro sig
    cases sig <;> decide
  exact ⟨(stopsEnd_iff horig _).mpr (by decide +kernel), by decide +kernel⟩

/-- If that leaves the profiler running, every build finds a session running. -/
theorem stoppedWith_not_ends {start : Host β n} {a : Answers}
    (hleft : ((Machine.run (step f finish) start (stoppedWith a)).map fun h =>
      (h.process.profiler.running, h.creation.map Except.isOk)) = some (true, some true)) :
    (∃ h, Machine.run (step f finish) start (stoppedWith a) = some h ∧
      ∀ b a' now instant, (h.build f b a' now instant).2 = some (.error .running)) ∧
    ¬Machine.Throughout (step f finish) (StopEnds f finish) start (stoppedWith a) := by
  obtain ⟨h, hrun, hpair⟩ := Option.map_eq_some_iff.mp hleft
  obtain ⟨hrunning, hcreation⟩ := Prod.mk.inj hpair
  refine ⟨⟨h, hrun, fun b a' now instant => ?_⟩, fun hall => ?_⟩
  · have hcreated : h.creation = some (.ok ()) := by
      obtain ⟨result, hresult, hok⟩ := Option.map_eq_some_iff.mp hcreation
      cases result with
      | error e => cases hok
      | ok u => exact hresult
    rw [build_of_running hcreated hrunning]
  · obtain ⟨t, ⟨hoff, -⟩, hstep⟩ :=
      Machine.Throughout.last ((stoppedWith a).take 3) hall hrun
    simp only [step] at hstep
    split at hstep
    · cases hstep
      rw [hoff] at hrunning
      cases hrunning
    · cases hstep

/-- A stop that cannot restore the disposition, and one that cannot create a collector: the
profiler is left running, and every build finds a session running. -/
theorem stoppedWith_errors_not_end :
    letI : MemImage (Entry UnresolvedFrames) (Entry UnresolvedFrames) := MemImage.cell _
    letI start : Host (Entry UnresolvedFrames) 7 := init World.alarmed
    letI run := Machine.run (step ⟨false, 128⟩ List.sum) start
    letI kept := Machine.Throughout (step ⟨false, 128⟩ List.sum) (StopEnds ⟨false, 128⟩ List.sum)
      start
    ((∃ h, run (stoppedWith ⟨.error 22, .ok ()⟩) = some h ∧ ∀ b a now instant,
        (h.build ⟨false, 128⟩ b a now instant).2 = some (.error .running)) ∧
      ¬kept (stoppedWith ⟨.error 22, .ok ()⟩)) ∧
    ((∃ h, run (stoppedWith ⟨.ok (), .error .os⟩) = some h ∧ ∀ b a now instant,
        (h.build ⟨false, 128⟩ b a now instant).2 = some (.error .running)) ∧
      ¬kept (stoppedWith ⟨.ok (), .error .os⟩)) := by
  let _ : MemImage (Entry UnresolvedFrames) (Entry UnresolvedFrames) := MemImage.cell _
  exact ⟨stoppedWith_not_ends (by decide +kernel), stoppedWith_not_ends (by decide +kernel)⟩

end Host

end Rpprof
