import Rpprof.Profiler.Lifecycle

/-!
# Calls are atomic

A build, and the end of a session, are several steps of a thread that holds the lock of the
profiler.  In between timers expire, signals are delivered, and guards are dropped by other threads.
Yet every such run has the outcome of one in which each call is a single event: a handler that comes
while the lock is held counts a missed tick and nothing else, and what it counts before the session
is running is forgotten.

So what holds of all runs of atomic calls holds here, whenever nobody holds the lock.

## Main definitions

* `Process.Like` — two processes that differ in what is pending, and in the ticks missed.
* `World.Stage`, `World.Matches` — how far the call that holds the lock has got, from the process
  before it.

## Main results

* `World.Matches.step` — a step is matched by events of atomic calls, or by none.
* `World.atomic_of_reach` — **whenever nobody holds the lock, the process is one that atomic calls
  lead to**.
-/

namespace Rpprof

variable {β : Type*} {n : ℕ}

namespace Process

/-- The same profiler, dispositions and timers. -/
structure Like (p q : Process β n) : Prop where
  profiler : p.profiler = q.profiler
  action : p.action = q.action
  timers : p.timers = q.timers

namespace Like

variable {p q r : Process β n}

theorem refl (p : Process β n) : p.Like p := ⟨rfl, rfl, rfl⟩

theorem trans (h : p.Like q) (h' : q.Like r) : p.Like r :=
  ⟨h.profiler.trans h'.profiler, h.action.trans h'.action, h.timers.trans h'.timers⟩

theorem configure (h : p.Like q) (f : Features) (b : ProfilerGuardBuilder) :
    (p.configure f b).Like (q.configure f b) :=
  ⟨by simp [Process.configure, h.profiler], h.action, h.timers⟩

theorem choose (h : p.Like q) (c : ClockType) (names : List (List UInt8)) :
    (p.choose c names).Like (q.choose c names) :=
  ⟨by simp [Process.choose, h.profiler], h.action, h.timers⟩

theorem setRunning (h : p.Like q) : p.setRunning.Like q.setRunning :=
  ⟨by simp [Process.setRunning, h.profiler], h.action, h.timers⟩

theorem dropTimer (h : p.Like q) (g : ProfilerGuard) : (p.dropTimer g).Like (q.dropTimer g) := by
  unfold Process.dropTimer
  cases g.timer with
  | none => exact h
  | some timer => exact ⟨h.profiler, h.action, by simp [h.timers]⟩

theorem registerSignalHandler (h : p.Like q) :
    (p.registerSignalHandler Answers.ok).1.Like (q.registerSignalHandler Answers.ok).1 := by
  refine ⟨?_, ?_, h.timers⟩
  · simp [Process.registerSignalHandler, sigaction, Answers.ok, h.profiler, h.action]
  · simp [Process.registerSignalHandler, sigaction, Answers.ok, h.profiler, h.action]

theorem unregisterSignalHandler (h : p.Like q) :
    (p.unregisterSignalHandler Answers.ok).1.Like (q.unregisterSignalHandler Answers.ok).1 := by
  have hold : p.profiler.oldSigaction = q.profiler.oldSigaction := by rw [h.profiler]
  cases hq : q.profiler.oldSigaction with
  | none =>
    rw [hq] at hold
    simpa [Process.unregisterSignalHandler, hold, hq] using h
  | some old =>
    rw [hq] at hold
    refine ⟨?_, ?_, ?_⟩
    · simp [Process.unregisterSignalHandler, sigaction, Answers.ok, hq, h.profiler]
    · simp [Process.unregisterSignalHandler, sigaction, Answers.ok, hq, h.profiler, h.action]
    · simp [Process.unregisterSignalHandler, sigaction, Answers.ok, hold, hq, h.timers]

theorem init (h : p.Like q) : (p.init Answers.ok).1.Like (q.init Answers.ok).1 :=
  ⟨by simp [Process.init, Answers.ok, h.profiler], h.action, h.timers⟩

end Like

@[simp] theorem missedSamples_unregisterSignalHandler (p : Process β n) (a : Answers) :
    (p.unregisterSignalHandler a).1.missedSamples = p.missedSamples := by
  unfold Process.unregisterSignalHandler
  cases p.profiler.oldSigaction with
  | none => rfl
  | some old => cases a.sigaction <;> rfl

/-- A stop whose calls succeed. -/
theorem stop_ok {p : Process β n} (hrun : p.profiler.running = true) :
    (p.stop Answers.ok).1 = ((p.unregisterSignalHandler Answers.ok).1.init Answers.ok).1 := by
  cases hold : p.profiler.oldSigaction <;>
    simp [stop, hrun, unregisterSignalHandler, sigaction, Answers.ok, hold]

/-- A start whose call succeeds. -/
theorem start_ok {p : Process β n} (hrun : p.profiler.running = false) (c : ClockType)
    (names : List (List UInt8)) : p.start c names Answers.ok =
      (((p.choose c names).registerSignalHandler Answers.ok).1.setRunning, .ok ()) := by
  simp [start, hrun, registerSignalHandler, sigaction, Answers.ok]

variable [MemImage β (Entry UnresolvedFrames)] [NeZero n] {f : Features}
  {hash : UnresolvedFrames → ℕ} {t : Tick}

/-- A handler that finds the lock held. -/
theorem perfSignalHandler_of_held (p : Process β n) (ht : t.lockHeld = true) :
    p.perfSignalHandler f hash t =
      some ({ p with missedSamples := p.missedSamples + 1 }, .missed) := by
  rw [perfSignalHandler, if_pos ht]

/-- The handler looks neither at what is pending nor at the dispositions. -/
theorem Like.perfSignalHandler {p q p' : Process β n} {exit : Exit} (h : p.Like q)
    (hmissed : p.missedSamples = q.missedSamples)
    (hstep : p.perfSignalHandler f hash t = some (p', exit)) :
    ∃ q', q.perfSignalHandler f hash t = some (q', exit) ∧ p'.Like q' ∧
      p'.missedSamples = q'.missedSamples := by
  obtain ⟨profiler, missed, action, pending, timers⟩ := p
  obtain ⟨profiler', missed', action', pending', timers'⟩ := q
  obtain ⟨hprofiler, haction, htimers⟩ := h
  subst hprofiler haction htimers hmissed
  unfold Process.perfSignalHandler at hstep ⊢
  split at hstep
  · next hheld =>
    cases hstep
    exact ⟨_, if_pos hheld, ⟨rfl, rfl, rfl⟩, rfl⟩
  · next hfree =>
    rw [if_neg hfree]
    split at hstep
    · next hblocked =>
      cases hstep
      exact ⟨_, if_pos hblocked, ⟨rfl, rfl, rfl⟩, rfl⟩
    · next hopen =>
      rw [if_neg hopen]
      simp only at hstep ⊢
      split at hstep
      · cases hstep
      · next name hname =>
        split at hstep
        · next hthread =>
          cases hstep
          exact ⟨_, if_pos hthread, ⟨rfl, rfl, rfl⟩, rfl⟩
        · next hthread =>
          rw [if_neg hthread]
          split at hstep
          · cases hstep
          · next frames hframes =>
            cases hstep
            exact ⟨_, rfl, ⟨rfl, rfl, rfl⟩, rfl⟩

end Process

/-! ### How far a call has got -/

/-- What the process is like, from the process before the call that holds the lock. -/
inductive World.Stage (f : Features) (w : World β n) (h : Host β n) :
    Option LockedStage → Prop where
  /-- Nobody holds the lock. -/
  | idle (like : w.process.Like h.process)
      (missed : w.process.missedSamples = h.process.missedSamples)
      (dropped : w.dropped = h.dropped) : Stage f w h none
  | registering (b : ProfilerGuardBuilder) (running : h.process.profiler.running = false)
      (like : w.process.Like ((h.process.configure f b).choose b.clockType b.threadBlocklist))
      (dropped : w.dropped = h.dropped) : Stage f w h (some (.registering b))
  | registered (b : ProfilerGuardBuilder) (running : h.process.profiler.running = false)
      (like : w.process.Like (((h.process.configure f b).choose b.clockType
        b.threadBlocklist).registerSignalHandler Answers.ok).1)
      (dropped : w.dropped = h.dropped) : Stage f w h (some (.registered b))
  | arming (b : ProfilerGuardBuilder) (running : h.process.profiler.running = false)
      (like : w.process.Like (((h.process.configure f b).choose b.clockType
        b.threadBlocklist).registerSignalHandler Answers.ok).1.setRunning)
      (dropped : w.dropped = h.dropped) : Stage f w h (some (.arming b))
  | unregistering (running : h.process.profiler.running = true)
      (like : w.process.Like h.process)
      (missed : w.process.missedSamples = h.process.missedSamples)
      (dropped : h.dropped = w.dropped + 1) : Stage f w h (some .unregistering)
  | clearing (running : h.process.profiler.running = true)
      (like : w.process.Like (h.process.unregisterSignalHandler Answers.ok).1)
      (missed : w.process.missedSamples = h.process.missedSamples)
      (dropped : h.dropped = w.dropped + 1) : Stage f w h (some .clearing)

/-- A process in the middle of a call, and one before it. -/
structure World.Matches (f : Features) (w : World β n) (h : Host β n) : Prop where
  created : ∀ e, h.creation ≠ some (.error e)
  guards : w.guards = h.guards
  stage : World.Stage f w h w.lock

namespace World

variable {f : Features} {w w' : World β n} {h h' : Host β n}

namespace Matches

theorem init (original : Signal → SigAction) :
    Matches f (World.init original : World β n) (Host.init original) where
  created := by
    intro e he
    cases he
  guards := rfl
  stage := .idle (.refl _) rfl rfl

/-- The process before the call was created. -/
theorem creation (hm : Matches f w h) : h.creation.getD Answers.ok.tempFile = .ok () := by
  cases hc : h.creation with
  | none => rfl
  | some r =>
    cases r with
    | ok u => rfl
    | error e => exact absurd hc (hm.created e)

/-- A step that goes no further in the call: only what is pending changes. -/
theorem still (hm : Matches f w h) (hprocess : w'.process.Like w.process)
    (hmissed : w'.process.missedSamples = w.process.missedSamples) (hguards : w'.guards = w.guards)
    (hdropped : w'.dropped = w.dropped) (hlock : w'.lock = w.lock) : Matches f w' h := by
  obtain ⟨hcreated, hg, hstage⟩ := hm
  refine ⟨hcreated, hguards.trans hg, ?_⟩
  rw [hlock]
  generalize w.lock = stage at hstage ⊢
  cases hstage with
  | idle like missed dropped =>
    exact .idle (hprocess.trans like) (hmissed.trans missed) (hdropped.trans dropped)
  | registering b running like dropped =>
    exact .registering b running (hprocess.trans like) (hdropped.trans dropped)
  | registered b running like dropped =>
    exact .registered b running (hprocess.trans like) (hdropped.trans dropped)
  | arming b running like dropped =>
    exact .arming b running (hprocess.trans like) (hdropped.trans dropped)
  | unregistering running like missed dropped =>
    exact .unregistering running (hprocess.trans like) (hmissed.trans missed)
      (by rw [hdropped]; exact dropped)
  | clearing running like missed dropped =>
    exact .clearing running (hprocess.trans like) (hmissed.trans missed)
      (by rw [hdropped]; exact dropped)

/-- The stages of a call, one by one. -/
theorem of_idle (hm : Matches f w h) (hlock : w.lock = none) :
    w.process.Like h.process ∧ w.process.missedSamples = h.process.missedSamples ∧
      w.dropped = h.dropped := by
  have hstage := hm.stage
  rw [hlock] at hstage
  cases hstage with
  | idle like missed dropped => exact ⟨like, missed, dropped⟩

/-! ### Steps -/

variable [MemImage β (Entry UnresolvedFrames)] [NeZero n] {finish : List ℕ → ℕ}

/-- A build is called. -/
theorem build (hm : Matches f w h) {b : ProfilerGuardBuilder}
    (hstep : w.step f finish (.build b) = some w') :
    ∃ h', Machine.Reachable (Host.step f finish) h h' ∧ Matches f w' h' := by
  rw [World.step, Option.ite_none_right_eq_some] at hstep
  obtain ⟨hlock, hstep⟩ := hstep
  obtain ⟨hlike, hmissed, hdropped⟩ := hm.of_idle hlock
  have hsame : w.process.profiler.running = h.process.profiler.running := by rw [hlike.profiler]
  cases hrun : h.process.profiler.running with
  | true =>
    -- it is rejected, and has changed the choices
    have hbuild : h.step f finish (.build b Answers.ok 0 0) = some { h with
        creation := some (.ok ())
        process := h.process.configure f b } := by
      rw [Host.step, Host.build_of_no_guard hm.creation (by intro g hg; cases hg)
        (Process.build_of_running hrun)]
    refine ⟨_, .tail .refl trivial hbuild, ?_⟩
    have hrun' : (w.process.configure f b).profiler.running = true := hsame.trans hrun
    simp only [hrun', if_true, Option.some.injEq] at hstep
    subst hstep
    refine ⟨by rintro e ⟨⟩, hm.guards, ?_⟩
    rw [show World.lock _ = none from hlock]
    exact .idle (hlike.configure f b) hmissed hdropped
  | false =>
    have hrun' : (w.process.configure f b).profiler.running = false := hsame.trans hrun
    simp only [hrun', Bool.false_eq_true, if_false, Option.some.injEq] at hstep
    subst hstep
    exact ⟨h, .refl, hm.created, hm.guards,
      .registering b hrun ((hlike.configure f b).choose _ _) hdropped⟩

omit [MemImage β (Entry UnresolvedFrames)] [NeZero n] in
/-- While a call holds the lock there is no guard. -/
theorem guards_of_lock (hm : Matches f w h) (hphase : h.Phase) (hlock : w.lock ≠ none) :
    w.guards = [] := by
  rw [hm.guards]
  have hstage := hm.stage
  generalize w.lock = stage at hlock hstage
  cases hstage with
  | idle => exact absurd rfl hlock
  | registering b running | registered b running | arming b running =>
    exact (hphase.of_not_running running).2.1
  | unregistering running like missed dropped | clearing running like missed dropped =>
    exact (hphase.of_dropped (by omega)).2.2.1

/-- A guard is dropped. -/
theorem drop (hm : Matches f w h) (hphase : h.Phase) {i : ℕ}
    (hstep : w.step f finish (.drop i) = some w') :
    ∃ h', Machine.Reachable (Host.step f finish) h h' ∧ Matches f w' h' := by
  rw [World.step] at hstep
  split at hstep
  · next g hg =>
    cases hstep
    by_cases hlock : w.lock = none
    · obtain ⟨hlike, hmissed, hdropped⟩ := hm.of_idle hlock
      have hg' : h.guards[i]? = some g := hm.guards ▸ hg
      have hdrop : h.step f finish (.drop i) = some { h with
          process := h.process.dropTimer g
          guards := h.guards.eraseIdx i
          dropped := h.dropped + 1 } := by
        rw [Host.step, hg']
      refine ⟨_, .tail .refl trivial hdrop, hm.created, by rw [hm.guards], ?_⟩
      rw [show World.lock _ = none from hlock]
      refine .idle (hlike.dropTimer g) ?_ (by rw [hdropped])
      cases htimer : g.timer <;> simpa [Process.dropTimer, htimer] using hmissed
    · rw [hm.guards_of_lock hphase hlock] at hg
      cases hg
  · cases hstep

/-- A guard that is being dropped takes the lock. -/
theorem stop (hm : Matches f w h) (hphase : h.Phase)
    (hstep : w.step f finish .stop = some w') :
    ∃ h', Machine.Reachable (Host.step f finish) h h' ∧ Matches f w' h' := by
  rw [World.step, Option.ite_none_right_eq_some] at hstep
  obtain ⟨⟨hlock, hpos⟩, hstep⟩ := hstep
  obtain ⟨hlike, hmissed, hdropped⟩ := hm.of_idle hlock
  have hrun : h.process.profiler.running = true := (hphase.of_dropped (hdropped ▸ hpos)).2.1.running
  have hrun' : w.process.profiler.running = true := by rw [hlike.profiler, hrun]
  rw [if_pos hrun', Option.some.injEq] at hstep
  subst hstep
  refine ⟨h, .refl, hm.created, hm.guards, .unregistering hrun hlike hmissed ?_⟩
  show h.dropped = w.dropped - 1 + 1
  omega

/-- Ticks that find the lock held, counted one by one. -/
theorem count_missed (h : Host β n) {sig : Signal}
    (hsig : (h.process.action sig).handler = .perfSignalHandler) (m : ℕ) :
    Machine.Reachable (Host.step f finish) h { h with
      process := { h.process with missedSamples := h.process.missedSamples + m }
      exits := h.exits ++ List.replicate m .missed } := by
  induction m with
  | zero => simpa using Machine.Reach.refl
  | succ m ih =>
    refine .tail (a := .tick sig { anyTick with lockHeld := true }) ih trivial ?_
    rw [Host.step, if_pos hsig, Process.perfSignalHandler_of_held _ rfl]
    simp [List.replicate_succ', Nat.add_assoc]

/-- The timer of the guard is set: here the build is over, and what was missed since the profiler is
running is counted. -/
theorem arming (hm : Matches f w h) {b : ProfilerGuardBuilder} {now instant : ℕ}
    (hrun : h.process.profiler.running = false)
    (hlike : w.process.Like (((h.process.configure f b).choose b.clockType
      b.threadBlocklist).registerSignalHandler Answers.ok).1.setRunning)
    (hdropped : w.dropped = h.dropped) :
    ∃ h', Machine.Reachable (Host.step f finish) h h' ∧
      Matches f (w.advance now instant (.arming b)) h' := by
  have hstart : (h.process.configure f b).start b.clockType b.threadBlocklist Answers.ok =
      ((((h.process.configure f b).choose b.clockType
        b.threadBlocklist).registerSignalHandler Answers.ok).1.setRunning, .ok ()) :=
    Process.start_ok (show (h.process.configure f b).profiler.running = false from hrun) _ _
  generalize hstarted : (((h.process.configure f b).choose b.clockType
    b.threadBlocklist).registerSignalHandler Answers.ok).1.setRunning = started at hstart hlike
  have hsig : (started.action b.clockType.signal).handler = .perfSignalHandler := by
    rw [← hstarted]
    simp [Process.setRunning, Process.registerSignalHandler, Process.sigaction, Answers.ok,
      Process.choose, SigAction.profiling]
  have hzero : started.missedSamples = 0 := by rw [← hstarted]; rfl
  rw [World.advance, hlike.timers]
  cases htimer : Timer.withClockType b.frequency b.clockType now instant started.timers with
  | some r =>
    obtain ⟨timer, timers⟩ := r
    have hprocess : h.process.build f b Answers.ok now instant =
        ({ started with timers := timers }, some (.ok ⟨some timer⟩)) := by
      simp only [Process.build, hstart, htimer]
    have hbuild : h.step f finish (.build b Answers.ok now instant) = some { h with
        creation := some (.ok ())
        process := { started with timers := timers }
        guards := ⟨some timer⟩ :: h.guards } := by
      rw [Host.step, Host.build_of_guard hm.creation hprocess]
    refine ⟨_, (Machine.Reach.tail .refl trivial hbuild).trans
      (count_missed _ hsig w.process.missedSamples), by rintro e ⟨⟩, by rw [hm.guards], ?_⟩
    exact .idle ⟨hlike.profiler, hlike.action, rfl⟩ (by simp [hzero]) hdropped
  | none =>
    -- the timer panics, and nobody gets a guard
    have hprocess : h.process.build f b Answers.ok now instant = (started, none) := by
      simp only [Process.build, hstart, htimer]
    have hbuild : h.step f finish (.build b Answers.ok now instant) = some { h with
        creation := some (.ok ())
        process := started } := by
      rw [Host.step, Host.build_of_no_guard hm.creation (by intro g hg; cases hg) hprocess]
    refine ⟨_, (Machine.Reach.tail .refl trivial hbuild).trans
      (count_missed _ hsig w.process.missedSamples), by rintro e ⟨⟩, hm.guards, ?_⟩
    show Stage f { w with lock := none } _ none
    exact .idle ⟨hlike.profiler, hlike.action, hlike.timers⟩ (by simp [hzero]) hdropped

/-- The call that holds the lock goes on. -/
theorem advance (hm : Matches f w h) {now instant : ℕ}
    (hstep : w.step f finish (.advance now instant) = some w') :
    ∃ h', Machine.Reachable (Host.step f finish) h h' ∧ Matches f w' h' := by
  obtain ⟨stage, hlock, rfl⟩ := Option.map_eq_some_iff.mp hstep
  have hstage := hm.stage
  rw [hlock] at hstage
  cases hstage with
  | registering b running like dropped =>
    exact ⟨h, .refl, hm.created, hm.guards,
      .registered b running like.registerSignalHandler dropped⟩
  | registered b running like dropped =>
    exact ⟨h, .refl, hm.created, hm.guards, .arming b running like.setRunning dropped⟩
  | arming b running like dropped => exact hm.arming running like dropped
  | unregistering running like missed dropped =>
    have hmissed : (w.process.unregisterSignalHandler Answers.ok).1.missedSamples =
        h.process.missedSamples := by simpa using missed
    exact ⟨h, .refl, hm.created, hm.guards,
      .clearing running like.unregisterSignalHandler hmissed dropped⟩
  | clearing running like missed dropped =>
    have hpos : 0 < h.dropped := by omega
    have hstop : h.step f finish (.stop Answers.ok) = some (h.stop Answers.ok) := by
      rw [Host.step, if_pos hpos]
    refine ⟨_, .tail .refl trivial hstop, hm.created, hm.guards, ?_⟩
    refine .idle ?_ ?_ ?_
    · show Process.Like (w.process.init Answers.ok).1 (h.process.stop Answers.ok).1
      rw [Process.stop_ok running]
      exact like.init
    · show (w.process.init Answers.ok).1.missedSamples = (h.process.stop Answers.ok).1.missedSamples
      rw [Process.stop_ok running]
      simpa [Process.init, Answers.ok] using missed
    · show w.dropped = h.dropped - 1
      omega

/-- A timer expires. -/
theorem expire (hm : Matches f w h) {which : Which}
    (hstep : w.step f finish (.expire which) = some w') : Matches f w' h := by
  rw [World.step, Option.ite_none_right_eq_some, Option.some.injEq] at hstep
  obtain ⟨-, rfl⟩ := hstep
  refine hm.still ?_ ?_ rfl rfl rfl
  · show (w.process.raise which.signal).Like w.process
    unfold Process.raise
    split <;> exact ⟨rfl, rfl, rfl⟩
  · show (w.process.raise which.signal).missedSamples = w.process.missedSamples
    unfold Process.raise
    split <;> rfl

omit [MemImage β (Entry UnresolvedFrames)] [NeZero n] in
/-- While a call ends a session, no handler is left once it is unregistered. -/
theorem handler_of_clearing (hm : Matches f w h) (hphase : h.Phase)
    (hlock : w.lock = some .clearing) (sig : Signal) :
    (w.process.action sig).handler ≠ .perfSignalHandler := by
  have hstage := hm.stage
  rw [hlock] at hstage
  cases hstage with
  | clearing running like missed dropped =>
    have hon : h.process.On := (hphase.of_dropped (by omega)).2.1
    have hclean := ((hon.stop Answers.ok).1 ⟨rfl, rfl⟩).action sig
    rw [Process.stop_ok running] at hclean
    rw [like.action]
    exact hclean

/-- The handler comes. -/
theorem handle (hm : Matches f w h) (hphase : h.Phase) {sig : Signal} {t : Tick}
    {p p' : Process β n} {exit : Exit} (hp : p.Like w.process)
    (hpmissed : p.missedSamples = w.process.missedSamples)
    (hsig : (w.process.action sig).handler = .perfSignalHandler)
    (hrun : p.perfSignalHandler f (UnresolvedFrames.hash finish)
      { t with lockHeld := t.lockHeld || w.lock.isSome } = some (p', exit)) :
    ∃ h', Machine.Reachable (Host.step f finish) h h' ∧ Matches f { w with process := p' } h' := by
  by_cases hlock : w.lock = none
  · obtain ⟨hlike, hmissed, hdropped⟩ := hm.of_idle hlock
    obtain ⟨q, hq, hlike', hmissed'⟩ :=
      (hp.trans hlike).perfSignalHandler (hpmissed.trans hmissed) hrun
    have htick : h.step f finish (.tick sig { t with lockHeld := t.lockHeld || w.lock.isSome }) =
        some { h with process := q, exits := h.exits ++ [exit] } := by
      rw [Host.step, if_pos (hlike.action ▸ hsig), hq]
    refine ⟨_, .tail .refl trivial htick, hm.created, hm.guards, ?_⟩
    rw [show World.lock _ = none from hlock]
    exact .idle hlike' hmissed' hdropped
  · -- it finds the lock held, and counts
    have hheld : (t.lockHeld || w.lock.isSome) = true := by
      rw [Option.isSome_iff_ne_none.mpr hlock, Bool.or_true]
    rw [Process.perfSignalHandler_of_held _ hheld] at hrun
    cases hrun
    have hp' : Process.Like { p with missedSamples := p.missedSamples + 1 } w.process :=
      ⟨hp.profiler, hp.action, hp.timers⟩
    have hstage := hm.stage
    cases hstages : w.lock with
    | none => exact absurd hstages hlock
    | some stage =>
      rw [hstages] at hstage
      cases hstage with
      | registering b running like dropped =>
        refine ⟨h, .refl, hm.created, hm.guards, ?_⟩
        exact .registering b running (hp'.trans like) dropped
      | registered b running like dropped =>
        refine ⟨h, .refl, hm.created, hm.guards, ?_⟩
        exact .registered b running (hp'.trans like) dropped
      | arming b running like dropped =>
        refine ⟨h, .refl, hm.created, hm.guards, ?_⟩
        exact .arming b running (hp'.trans like) dropped
      | unregistering running like missed dropped =>
        refine ⟨_, count_missed h (like.action ▸ hsig) 1, hm.created, hm.guards, ?_⟩
        have hlike := hp'.trans like
        exact .unregistering running ⟨hlike.profiler, hlike.action, hlike.timers⟩
          (congrArg (· + 1) (hpmissed.trans missed)) dropped
      | clearing => exact absurd hsig (hm.handler_of_clearing hphase hstages sig)

/-- A signal is delivered. -/
theorem deliver (hm : Matches f w h) (hphase : h.Phase) {sig : Signal} {t : Tick}
    (hstep : w.step f finish (.deliver sig t) = some w') :
    ∃ h', Machine.Reachable (Host.step f finish) h h' ∧ Matches f w' h' := by
  rw [World.step, Option.ite_none_right_eq_some] at hstep
  obtain ⟨-, hstep⟩ := hstep
  simp only [World.deliver] at hstep
  split at hstep
  · next hsig =>
    split at hstep
    · next p exit hrun =>
      cases hstep
      have hlike : Process.Like { w.process with
          pending := Function.update w.process.pending sig false } w.process := ⟨rfl, rfl, rfl⟩
      exact hm.handle hphase hlike rfl hsig hrun
    · cases hstep
  · cases hstep
    exact ⟨h, .refl, hm.still ⟨rfl, rfl, rfl⟩ rfl rfl rfl rfl⟩
  · cases hstep
    exact ⟨h, .refl, hm.still ⟨rfl, rfl, rfl⟩ rfl rfl rfl rfl⟩
  · cases hstep
    exact ⟨h, .refl, hm.still ⟨rfl, rfl, rfl⟩ rfl rfl rfl rfl⟩

/-- **Every step is matched**, by events of atomic calls or by none. -/
theorem step (hm : Matches f w h) (hphase : h.Phase) {e : WorldEvent}
    (hstep : w.step f finish e = some w') :
    ∃ h', Machine.Reachable (Host.step f finish) h h' ∧ Matches f w' h' := by
  cases e with
  | build b => exact hm.build hstep
  | drop i => exact hm.drop hphase hstep
  | stop => exact hm.stop hphase hstep
  | advance now instant => exact hm.advance hstep
  | expire which => exact ⟨h, .refl, hm.expire hstep⟩
  | deliver sig t => exact hm.deliver hphase hstep

end Matches

/-! ### Runs -/

section Runs

variable [MemImage β (Entry UnresolvedFrames)] [NeZero n] {finish : List ℕ → ℕ}

/-- What is reached in single steps is matched by what atomic calls reach. -/
theorem matches_of_reach {original : Signal → SigAction}
    (horig : ∀ sig, (original sig).handler ≠ .perfSignalHandler)
    (hreach : Machine.Reachable (step f finish) (World.init original) w) :
    ∃ h, Machine.Reachable (Host.step f finish) (Host.init original) h ∧ Matches f w h := by
  refine hreach.simulated (Matches.init original) ?_
  intro w e w' h hh hm _ hstep
  exact hm.step (Host.Phase.of_reachable horig hh) hstep

/-- **Calls are atomic.**  Whenever nobody holds the lock, after any steps of builds and drops with
any signals in between, the process and the guards are those that some run of atomic calls leads
to. -/
theorem atomic_of_reach {original : Signal → SigAction}
    (horig : ∀ sig, (original sig).handler ≠ .perfSignalHandler)
    (hreach : Machine.Reachable (step f finish) (World.init original) w) (hlock : w.lock = none) :
    ∃ h, Machine.Reachable (Host.step f finish) (Host.init original) h ∧
      w.process.Like h.process ∧ w.process.missedSamples = h.process.missedSamples ∧
      w.guards = h.guards ∧ w.dropped = h.dropped := by
  obtain ⟨h, hh, hm⟩ := matches_of_reach horig hreach
  obtain ⟨hlike, hmissed, hdropped⟩ := hm.of_idle hlock
  exact ⟨h, hh, hlike, hmissed, hm.guards, hdropped⟩

end Runs

/-- A session from its build to the end of its stop.  One tick finds the lock held. -/
theorem atomic_of_reach_firstSession :
    letI : MemImage (Entry UnresolvedFrames) (Entry UnresolvedFrames) := MemImage.cell _
    ∃ (w : World (Entry UnresolvedFrames) 7) (h : Host (Entry UnresolvedFrames) 7),
      Machine.run (step ⟨true, 128⟩ List.sum) (init alarmed) (twoSessions.take 13) = some w ∧
      Machine.Reachable (Host.step ⟨true, 128⟩ List.sum) (Host.init alarmed) h ∧
      h.process.missedSamples = 1 ∧ h.process.profiler.running = false ∧ h.guards = [] ∧
      h.process.action = w.process.action := by
  let _ : MemImage (Entry UnresolvedFrames) (Entry UnresolvedFrames) := MemImage.cell _
  have hrun : (Machine.run (step ⟨true, 128⟩ List.sum)
      (init alarmed : World (Entry UnresolvedFrames) 7) (twoSessions.take 13)).map
        (fun w => (w.lock, w.process.missedSamples, w.process.profiler.running, w.guards)) =
      some (none, 1, false, []) := by
    decide +kernel
  obtain ⟨w, hw, hwhole⟩ := Option.map_eq_some_iff.mp hrun
  obtain ⟨hlock, hmissed, hrunning, hguards⟩ :
      w.lock = none ∧ w.process.missedSamples = 1 ∧ w.process.profiler.running = false ∧
        w.guards = [] := by
    simpa only [Prod.mk.injEq] using hwhole
  have horig : ∀ sig, (alarmed sig).handler ≠ .perfSignalHandler := by
    intro sig
    cases sig <;> decide
  obtain ⟨h, hh, hlike, hmissed', hguards', -⟩ := atomic_of_reach horig
    (Machine.Reach.of_run (fun _ => by simp) hw) hlock
  exact ⟨w, h, hw, hh, hmissed' ▸ hmissed, hlike.profiler ▸ hrunning, hguards' ▸ hguards,
    hlike.action.symm⟩

end World

end Rpprof
