import Rpprof.Profiler.Profiler
import Rpprof.Lib.Machine

/-!
# Signal dispositions over whole runs

Builds and drops of guards on any threads, one step at a time, with timers expiring and
signals delivered in between.  `build` and `stop` hold the lock of the profiler from
beginning to end; the drop of a guard disarms its timer before it takes the lock.  A
signal that is raised stays pending until it is delivered, and delivering one whose
disposition is the default one kills the process.

## Main definitions

* `World`, `World.step` — the process, the guards, and the call that holds the lock.
* `World.leftover` — what the profiler leaves of a disposition.
* `World.Tracks` — the invariant.

## Main results

* `World.run_build`, `World.run_drop` — the steps of a call, with nothing in between, are
  the call.
* `World.Tracks.step` — every step keeps the invariant.
* `World.disposition_of_reach` — **who handles which signal**, in every run.
-/

namespace Rpprof

variable {β : Type*} {n : ℕ}

/-- Where the call that holds the lock of the profiler is. -/
inductive LockedStage where
  /-- In `start`, before the `sigaction` of `register_signal_handler`. -/
  | registering (b : ProfilerGuardBuilder)
  /-- Before the missed ticks are reset and the profiler is running. -/
  | registered (b : ProfilerGuardBuilder)
  /-- `start` returned; before the `setitimer` of the guard's timer. -/
  | arming (b : ProfilerGuardBuilder)
  /-- In `stop`, before the `sigaction` of `unregister_signal_handler`. -/
  | unregistering
  /-- Before `init`. -/
  | clearing
deriving DecidableEq, Repr

/-- The builder of the guard that is being made. -/
def LockedStage.builder? : LockedStage → Option ProfilerGuardBuilder
  | registering b | registered b | arming b => some b
  | unregistering | clearing => none

/-- The process and the calls under way. -/
structure World (β : Type*) (n : ℕ) where
  process : Process β n
  /-- The call that holds the lock. -/
  lock : Option LockedStage
  /-- The guards handed out. -/
  guards : List ProfilerGuard
  /-- The guards being dropped whose timer is gone, and which wait for the lock. -/
  dropped : ℕ
  /-- A signal with the default disposition was delivered. -/
  killed : Bool
  /-- The clock type of the session whose handler is registered. -/
  session : Option ClockType
  /-- A session was run on the signal. -/
  ran : Signal → Bool

/-- What happens next. -/
inductive WorldEvent where
  /-- `build` is called, and takes the lock. -/
  | build (b : ProfilerGuardBuilder)
  /-- The guard at an index is dropped: its timer goes. -/
  | drop (i : ℕ)
  /-- A guard that is being dropped takes the lock and calls `stop`. -/
  | stop
  /-- The call that holds the lock goes on, at a time. -/
  | advance (now instant : ℕ)
  /-- A timer expires. -/
  | expire (which : Which)
  /-- A pending signal is delivered, to a thread that finds what the tick says. -/
  | deliver (sig : Signal) (t : Tick)
deriving DecidableEq, Repr

namespace WorldEvent

/-- Guards are built with a frequency from 1 to 1000000 only. -/
def ValidFrequency : WorldEvent → Prop
  | build b => 1 ≤ b.frequency ∧ b.frequency ≤ 1000000
  | _ => True

instance : ∀ e : WorldEvent, Decidable e.ValidFrequency
  | build b => inferInstanceAs (Decidable (1 ≤ b.frequency ∧ b.frequency ≤ 1000000))
  | drop _ | stop | advance _ _ | expire _ | deliver _ _ => inferInstanceAs (Decidable True)

end WorldEvent

/-- The kernel raises a signal: one that is ignored is discarded at once. -/
def Process.raise (s : Process β n) (sig : Signal) : Process β n :=
  if (s.action sig).handler = .sigIgn then s
  else { s with pending := Function.update s.pending sig true }

namespace World

/-- A process that has not used the profiler yet, with the dispositions it has. -/
def init (original : Signal → SigAction) : World β n where
  process :=
    { profiler := Profiler.new
      missedSamples := 0
      action := original
      pending := fun _ => false
      timers := fun _ => ⟨Timeval.zero, Timeval.zero⟩ }
  lock := none
  guards := []
  dropped := 0
  killed := false
  session := none
  ran := fun _ => false

section Machine

variable [MemImage β (Entry UnresolvedFrames)] [NeZero n] (f : Features) (finish : List ℕ → ℕ)

/-- The call that holds the lock goes on. -/
def advance (w : World β n) (now instant : ℕ) : LockedStage → World β n
  | .registering b => { w with
      process := (w.process.registerSignalHandler Answers.ok).1
      lock := some (.registered b)
      session := some b.clockType }
  | .registered b => { w with process := w.process.setRunning, lock := some (.arming b) }
  | .arming b =>
    match Timer.withClockType b.frequency b.clockType now instant w.process.timers with
    | some (timer, timers) => { w with
        process := { w.process with timers := timers }
        lock := none
        guards := ⟨some timer⟩ :: w.guards }
    -- the panic lets go of the lock
    | none => { w with lock := none }
  | .unregistering => { w with
      process := (w.process.unregisterSignalHandler Answers.ok).1
      lock := some .clearing
      session := none
      ran := match w.session with
        | some c => Function.update w.ran c.signal true
        | none => w.ran }
  | .clearing => { w with process := (w.process.init Answers.ok).1, lock := none }

/-- A pending signal is delivered.  While a call holds the lock, the handler finds it
held. -/
def deliver (w : World β n) (sig : Signal) (t : Tick) : Option (World β n) :=
  let p := { w.process with pending := Function.update w.process.pending sig false }
  match (p.action sig).handler with
  | .perfSignalHandler =>
    match p.perfSignalHandler f (UnresolvedFrames.hash finish)
      { t with lockHeld := t.lockHeld || w.lock.isSome } with
    | some (p', _) => some { w with process := p' }
    | none => none
  | .sigDfl => some { w with process := p, killed := true }
  | .sigIgn | .app _ => some { w with process := p }

/-- One event; every call of the operating system succeeds. -/
def step (w : World β n) : WorldEvent → Option (World β n)
  | .build b =>
    if w.lock = none then
      let p := w.process.configure f b
      if p.profiler.running then some { w with process := p }
      else some { w with
        process := p.choose b.clockType b.threadBlocklist
        lock := some (.registering b) }
    else none
  | .drop i =>
    match w.guards[i]? with
    | some g => some { w with
        process := w.process.dropTimer g
        guards := w.guards.eraseIdx i
        dropped := w.dropped + 1 }
    | none => none
  | .stop =>
    if w.lock = none ∧ 0 < w.dropped then
      if w.process.profiler.running then some { w with
        dropped := w.dropped - 1
        lock := some .unregistering }
      else some { w with dropped := w.dropped - 1 }
    else none
  | .advance now instant => w.lock.map (w.advance now instant)
  | .expire which =>
    if w.process.timers.Armed which then some { w with process := w.process.raise which.signal }
    else none
  | .deliver sig t => if w.process.pending sig then w.deliver f finish sig t else none

/-- **A build with nothing in between is `build`.** -/
theorem run_build (w : World β n) (b : ProfilerGuardBuilder) (now instant : ℕ)
    (hlock : w.lock = none) (hrun : w.process.profiler.running = false) (hb : b.frequency ≠ 0) :
    ∃ g, w.process.build f b Answers.ok now instant =
        ((w.process.build f b Answers.ok now instant).1, some (.ok g)) ∧
      Machine.run (step f finish) w
        [.build b, .advance now instant, .advance now instant, .advance now instant] =
        some { w with
          process := (w.process.build f b Answers.ok now instant).1
          guards := g :: w.guards
          session := some b.clockType } := by
  have hrun' : (w.process.configure f b).profiler.running = false := hrun
  refine ⟨⟨some ⟨b.frequency, b.clockType, now, instant⟩⟩, ?_, ?_⟩
  · simp [Process.build, Process.start, hrun', Process.registerSignalHandler, Process.sigaction,
      Answers.ok, Timer.withClockType, hb]
  · simp [Machine.run, step, hlock, hrun', advance, Process.build, Process.start,
      Process.registerSignalHandler, Process.sigaction, Answers.ok, Timer.withClockType, hb,
      Process.setRunning]

/-- **A drop with nothing in between is `drop`.** -/
theorem run_drop (w : World β n) (g : ProfilerGuard) (now instant : ℕ) (hlock : w.lock = none)
    (hrun : w.process.profiler.running = true) (hg : w.guards[0]? = some g) :
    (Machine.run (step f finish) w
      [.drop 0, .stop, .advance now instant, .advance now instant]).map World.process =
        some (w.process.dropGuard g Answers.ok) := by
  cases hold : w.process.profiler.oldSigaction <;>
    simp [Machine.run, step, hg, hlock, hrun, advance, Process.dropGuard, Process.stop,
      Process.unregisterSignalHandler, Process.sigaction, Answers.ok, Process.init, hold]

end Machine

/-! ### The invariant -/

/-- The session is on the signal. -/
def Covers (w : World β n) (sig : Signal) : Prop := w.session.map ClockType.signal = some sig

instance (w : World β n) (sig : Signal) : Decidable (w.Covers sig) :=
  inferInstanceAs (Decidable (_ = _))

/-- What there is of the application's disposition outside sessions: the original one,
or `SIG_IGN` once a session was run on a signal that had the default one. -/
def leftover (original : Signal → SigAction) (w : World β n) (sig : Signal) : SigAction :=
  if w.ran sig = true ∧ (original sig).handler = .sigDfl then SigAction.ignore else original sig

theorem leftover_of_ran {original : Signal → SigAction} {w : World β n} {sig : Signal}
    (hran : w.ran sig = true) : w.leftover original sig =
      if (original sig).handler = .sigDfl then SigAction.ignore else original sig := by
  simp only [leftover, hran, true_and]

/-- Ignoring the default one of what the profiler leaves is ignoring the original one. -/
theorem restored_eq (original : Signal → SigAction) (w : World β n) (sig : Signal) :
    (if (w.leftover original sig).handler = .sigDfl then SigAction.ignore
      else w.leftover original sig) =
      if (original sig).handler = .sigDfl then SigAction.ignore else original sig := by
  by_cases hran : w.ran sig = true
  · rw [leftover_of_ran hran]
    by_cases hdfl : (original sig).handler = .sigDfl
    · rw [if_pos hdfl]
      rfl
    · rw [if_neg hdfl, if_neg hdfl]
  · have hleft : w.leftover original sig = original sig := if_neg fun hboth => hran hboth.1
    rw [hleft]

/-- One guard at most, and never one beside a call that holds the lock. -/
inductive Shape : Option LockedStage → List ProfilerGuard → ℕ → Bool → Option ClockType → Prop where
  | off : Shape none [] 0 false none
  | registering {b} : Shape (some (.registering b)) [] 0 false none
  | registered {b} : Shape (some (.registered b)) [] 0 false (some b.clockType)
  | arming {b} : Shape (some (.arming b)) [] 0 true (some b.clockType)
  | live {t : Timer} : Shape none [⟨some t⟩] 0 true (some t.clockType)
  | disarmed {c} : Shape none [] 1 true (some c)
  | unregistering {c} : Shape (some .unregistering) [] 0 true (some c)
  | clearing : Shape (some .clearing) [] 0 true none

namespace Shape

variable {guards : List ProfilerGuard} {dropped : ℕ} {running : Bool}
  {session : Option ClockType} {b : ProfilerGuardBuilder}

theorem of_registering (h : Shape (some (.registering b)) guards dropped running session) :
    guards = [] ∧ dropped = 0 ∧ running = false ∧ session = none := by
  cases h
  exact ⟨rfl, rfl, rfl, rfl⟩

theorem of_registered (h : Shape (some (.registered b)) guards dropped running session) :
    guards = [] ∧ dropped = 0 ∧ running = false ∧ session = some b.clockType := by
  cases h
  exact ⟨rfl, rfl, rfl, rfl⟩

theorem of_arming (h : Shape (some (.arming b)) guards dropped running session) :
    guards = [] ∧ dropped = 0 ∧ running = true ∧ session = some b.clockType := by
  cases h
  exact ⟨rfl, rfl, rfl, rfl⟩

theorem of_unregistering (h : Shape (some .unregistering) guards dropped running session) :
    ∃ c, guards = [] ∧ dropped = 0 ∧ running = true ∧ session = some c := by
  cases h
  exact ⟨_, rfl, rfl, rfl, rfl⟩

theorem of_clearing (h : Shape (some .clearing) guards dropped running session) :
    guards = [] ∧ dropped = 0 ∧ running = true ∧ session = none := by
  cases h
  exact ⟨rfl, rfl, rfl, rfl⟩

/-- Nothing is running and nobody holds the lock. -/
theorem of_off (h : Shape none guards dropped false session) :
    guards = [] ∧ dropped = 0 ∧ session = none := by
  cases h
  exact ⟨rfl, rfl, rfl⟩

/-- A guard waits to stop the profiler. -/
theorem of_dropped (h : Shape none guards dropped running session) (hpos : 0 < dropped) :
    ∃ c, guards = [] ∧ dropped = 1 ∧ running = true ∧ session = some c := by
  cases h with
  | disarmed => exact ⟨_, rfl, rfl, rfl, rfl⟩
  | _ => omega

/-- There is a guard. -/
theorem of_guard {lock : Option LockedStage} {t : Timer}
    (h : Shape lock [⟨some t⟩] dropped running session) :
    lock = none ∧ dropped = 0 ∧ running = true ∧ session = some t.clockType := by
  cases h
  exact ⟨rfl, rfl, rfl, rfl⟩

theorem guards_cases {lock : Option LockedStage} (h : Shape lock guards dropped running session) :
    guards = [] ∨ ∃ t : Timer, guards = [⟨some t⟩] := by
  cases h with
  | live => exact Or.inr ⟨_, rfl⟩
  | _ => exact Or.inl rfl

end Shape

/-- What every run keeps. -/
structure Tracks (original : Signal → SigAction) (w : World β n) : Prop where
  shape : Shape w.lock w.guards w.dropped w.process.profiler.running w.session
  /-- The profiler's clock type is the one `build` was called with. -/
  choice : ∀ b, w.lock = some (.registering b) → w.process.profiler.clockType = b.clockType
  valid : ∀ stage b, w.lock = some stage → stage.builder? = some b →
    1 ≤ b.frequency ∧ b.frequency ≤ 1000000
  /-- What will be restored is what there was, on the signal it is restored on. -/
  saved : ∀ c, w.session = some c → w.process.profiler.clockType = c ∧
    w.process.profiler.oldSigaction = some (w.leftover original c.signal)
  inside : ∀ sig, w.Covers sig → (w.process.action sig).handler = .perfSignalHandler
  outside : ∀ sig, ¬w.Covers sig → w.process.action sig = w.leftover original sig
  /-- Only the timer of a guard is armed. -/
  armed : ∀ which, w.process.timers.Armed which →
    ∃ t, w.guards = [⟨some t⟩] ∧ t.clockType.which = which
  /-- A pending signal was raised by a session's timer. -/
  pending : ∀ sig, w.process.pending sig = true → w.ran sig = true ∨ w.Covers sig
  alive : w.killed = false

namespace Tracks

variable {original : Signal → SigAction} {w w' : World β n}

theorem init (original : Signal → SigAction) : (init original : World β n).Tracks original where
  shape := .off
  choice := by intro b hb; cases hb
  valid := by intro stage b hstage; cases hstage
  saved := by intro c hc; cases hc
  inside := by intro sig hsig; cases hsig
  outside := by
    intro sig _
    show original sig = leftover original (World.init original) sig
    rw [leftover, if_neg]
    rintro ⟨hran, -⟩
    cases hran
  armed := by intro which harmed; exact absurd rfl harmed
  pending := by intro sig hsig; cases hsig
  alive := rfl

/-- A pending signal does not have the default disposition. -/
theorem handler_of_pending (h : w.Tracks original) {sig : Signal}
    (hp : w.process.pending sig = true) : (w.process.action sig).handler ≠ .sigDfl := by
  by_cases hc : w.Covers sig
  · rw [h.inside sig hc]
    exact fun hdfl => by cases hdfl
  · have hran := (h.pending sig hp).resolve_right hc
    rw [h.outside sig hc, leftover]
    split
    · exact fun hdfl => by cases hdfl
    · next hno => exact fun hdfl => hno ⟨hran, hdfl⟩

/-- A step that leaves dispositions, the saved one and the session alone. -/
theorem keep (h : w.Tracks original) (haction : w'.process.action = w.process.action)
    (hclock : w'.process.profiler.clockType = w.process.profiler.clockType)
    (hold : w'.process.profiler.oldSigaction = w.process.profiler.oldSigaction)
    (hsession : w'.session = w.session) (hran : w'.ran = w.ran) (halive : w'.killed = w.killed)
    (hshape : Shape w'.lock w'.guards w'.dropped w'.process.profiler.running w'.session)
    (hchoice : ∀ b, w'.lock = some (.registering b) → w'.process.profiler.clockType = b.clockType)
    (hvalid : ∀ stage b, w'.lock = some stage → stage.builder? = some b →
      1 ≤ b.frequency ∧ b.frequency ≤ 1000000)
    (harmed : ∀ which, w'.process.timers.Armed which →
      ∃ t, w'.guards = [⟨some t⟩] ∧ t.clockType.which = which)
    (hpending : ∀ sig, w'.process.pending sig = true →
      w.process.pending sig = true ∨ w.Covers sig) : w'.Tracks original := by
  have hcovers : ∀ sig, w'.Covers sig ↔ w.Covers sig := by
    intro sig
    rw [Covers, Covers, hsession]
  have hleft : ∀ sig, w'.leftover original sig = w.leftover original sig := by
    intro sig
    rw [leftover, leftover, hran]
  refine ⟨hshape, hchoice, hvalid, ?_, ?_, ?_, harmed, ?_, ?_⟩
  · intro c hc
    rw [hsession] at hc
    rw [hclock, hold, hleft]
    exact h.saved c hc
  · intro sig hsig
    rw [haction]
    exact h.inside sig ((hcovers sig).mp hsig)
  · intro sig hsig
    rw [haction, hleft]
    exact h.outside sig fun hc => hsig ((hcovers sig).mpr hc)
  · intro sig hsig
    rw [hran, hcovers]
    rcases hpending sig hsig with hold | hc
    · exact h.pending sig hold
    · exact Or.inr hc
  · rw [halive, h.alive]

/-- `build` takes the lock and finds no session running. -/
theorem begin (h : w.Tracks original) (hlock : w.lock = none)
    (hrun : w.process.profiler.running = false) (f : Features) {b : ProfilerGuardBuilder}
    (hb : 1 ≤ b.frequency ∧ b.frequency ≤ 1000000) :
    Tracks original { w with
      process := (w.process.configure f b).choose b.clockType b.threadBlocklist
      lock := some (.registering b) } := by
  have hshape := h.shape
  rw [hlock, hrun] at hshape
  obtain ⟨hguards, hdropped, hsession⟩ := hshape.of_off
  refine ⟨?_, ?_, ?_, ?_, h.inside, h.outside, h.armed, h.pending, h.alive⟩
  · show Shape (some (.registering b)) w.guards w.dropped w.process.profiler.running w.session
    rw [hguards, hdropped, hsession, hrun]
    exact .registering
  · intro b' hb'
    cases hb'
    rfl
  · intro stage b' hstage hb'
    cases hstage
    cases hb'
    exact hb
  · intro c hc
    have : w.session = some c := hc
    rw [hsession] at this
    cases this

/-- The handler is registered, and what was there is saved. -/
theorem register (h : w.Tracks original) {b : ProfilerGuardBuilder}
    (hlock : w.lock = some (.registering b)) (now instant : ℕ) :
    (w.advance now instant (.registering b)).Tracks original := by
  have hshape := h.shape
  rw [hlock] at hshape
  obtain ⟨hguards, hdropped, hrun, hsession⟩ := hshape.of_registering
  have hclock := h.choice b hlock
  have hfree : ∀ sig, ¬w.Covers sig := by
    intro sig hsig
    rw [Covers, hsession] at hsig
    cases hsig
  refine ⟨?_, ?_, ?_, ?_, ?_, ?_, ?_, ?_, h.alive⟩
  · show Shape (some (.registered b)) w.guards w.dropped w.process.profiler.running
      (some b.clockType)
    rw [hguards, hdropped, hrun]
    exact .registered
  · intro b' hb'
    cases hb'
  · intro stage b' hstage hb'
    cases hstage
    cases hb'
    exact h.valid _ b hlock rfl
  · intro c hc
    cases hc
    refine ⟨hclock, ?_⟩
    show some (w.process.action w.process.profiler.clockType.signal) = _
    rw [hclock, h.outside _ (hfree _)]
    rfl
  · intro sig hsig
    have heq : b.clockType.signal = sig := Option.some.inj hsig
    show (Function.update w.process.action w.process.profiler.clockType.signal _ sig).handler = _
    rw [hclock, heq, Function.update_self]
    rfl
  · intro sig hsig
    have hne : sig ≠ b.clockType.signal := fun heq => hsig (congrArg some heq.symm)
    show Function.update w.process.action w.process.profiler.clockType.signal _ sig = _
    rw [hclock, Function.update_of_ne hne, h.outside sig (hfree sig)]
    rfl
  · exact h.armed
  · intro sig hsig
    exact Or.inl ((h.pending sig hsig).resolve_right (hfree sig))

/-- The timer of a new guard is armed. -/
theorem arm (h : w.Tracks original) {b : ProfilerGuardBuilder}
    (hlock : w.lock = some (.arming b)) (now instant : ℕ) :
    (w.advance now instant (.arming b)).Tracks original := by
  have hshape := h.shape
  rw [hlock] at hshape
  obtain ⟨hguards, hdropped, hrun, hsession⟩ := hshape.of_arming
  obtain ⟨hpos, hle⟩ := h.valid _ b hlock rfl
  obtain ⟨v, -, htimer⟩ := Timer.armed_withClockType (by omega) hle b.clockType now instant
    w.process.timers
  simp only [advance, htimer]
  refine h.keep rfl rfl rfl rfl rfl rfl ?_ nofun nofun ?_ fun sig hsig => Or.inl hsig
  · show Shape none (⟨some _⟩ :: w.guards) w.dropped w.process.profiler.running w.session
    rw [hguards, hdropped, hrun, hsession]
    exact .live
  · intro which harmed
    by_cases hw : which = b.clockType.which
    · exact ⟨_, by rw [hguards], hw.symm⟩
    · -- another timer: nobody had a guard, so it was not armed
      have hother : (w.process.timers which).value ≠ Timeval.zero := by
        have : (Function.update w.process.timers b.clockType.which v which).value ≠
          Timeval.zero := harmed
        rwa [Function.update_of_ne hw] at this
      obtain ⟨t, ht, -⟩ := h.armed which hother
      rw [hguards] at ht
      cases ht

/-- The timer of a guard that is dropped is disarmed. -/
theorem dropTimer (h : w.Tracks original) {i : ℕ} {g : ProfilerGuard}
    (hg : w.guards[i]? = some g) :
    Tracks original { w with
      process := w.process.dropTimer g
      guards := w.guards.eraseIdx i
      dropped := w.dropped + 1 } := by
  have hshape := h.shape
  obtain hguards | ⟨t, hguards⟩ := hshape.guards_cases
  · rw [hguards] at hg
    cases hg
  rw [hguards] at hshape
  obtain ⟨hlock, hdropped, hrun, hsession⟩ := hshape.of_guard
  obtain ⟨rfl, rfl⟩ : i = 0 ∧ (⟨some t⟩ : ProfilerGuard) = g := by
    rw [hguards] at hg
    cases i with
    | zero => exact ⟨rfl, Option.some.inj hg⟩
    | succ i => cases hg
  refine h.keep rfl rfl rfl rfl rfl rfl ?_ ?_ ?_ ?_ fun sig hsig => Or.inl hsig
  · show Shape w.lock (w.guards.eraseIdx 0) (w.dropped + 1) w.process.profiler.running w.session
    rw [hlock, hguards, hdropped, hrun, hsession]
    exact .disarmed
  · intro b hb
    exact h.choice b hb
  · intro stage b hstage
    exact h.valid stage b hstage
  · intro which harmed
    exfalso
    have hvalue : (t.drop w.process.timers which).value ≠ Timeval.zero := harmed
    rw [Timer.drop_eq] at hvalue
    by_cases hw : which = t.clockType.which
    · rw [hw, Function.update_self] at hvalue
      exact hvalue rfl
    · rw [Function.update_of_ne hw] at hvalue
      obtain ⟨t', ht', hw'⟩ := h.armed which hvalue
      rw [hguards] at ht'
      cases ht'
      exact hw hw'.symm

/-- What `unregister_signal_handler` does in a session on `c`. -/
theorem advance_unregistering (h : w.Tracks original) {c : ClockType}
    (hsession : w.session = some c) (now instant : ℕ) :
    ∃ pending : Signal → Bool,
      (∀ sig, sig ≠ c.signal → pending sig = true → w.process.pending sig = true) ∧
      w.advance now instant .unregistering = { w with
        process := { w.process with
          profiler := { w.process.profiler with oldSigaction := none }
          action := Function.update w.process.action c.signal
            (if (original c.signal).handler = .sigDfl then SigAction.ignore
              else original c.signal)
          pending := pending }
        lock := some .clearing
        session := none
        ran := Function.update w.ran c.signal true } := by
  obtain ⟨hclock, hold⟩ := h.saved c hsession
  rw [← restored_eq original w c.signal]
  generalize hnew : (if (w.leftover original c.signal).handler = .sigDfl then SigAction.ignore
    else w.leftover original c.signal) = new
  -- what is ignored from now on is no longer pending
  refine ⟨if new.handler = .sigIgn then Function.update w.process.pending c.signal false
    else w.process.pending, ?_, ?_⟩
  · intro sig hne hsig
    split at hsig
    · rwa [Function.update_of_ne hne] at hsig
    · exact hsig
  · simp only [World.advance, Process.unregisterSignalHandler, hold, Process.sigaction, Answers.ok,
      hclock, hsession, hnew]

/-- What was saved is restored, or ignored. -/
theorem unregister (h : w.Tracks original) (hlock : w.lock = some .unregistering)
    (now instant : ℕ) : (w.advance now instant .unregistering).Tracks original := by
  have hshape := h.shape
  rw [hlock] at hshape
  obtain ⟨c, hguards, hdropped, hrun, hsession⟩ := hshape.of_unregistering
  have hfree : ∀ sig, sig ≠ c.signal → ¬w.Covers sig := by
    intro sig hne hsig
    rw [Covers, hsession, Option.map_some, Option.some.injEq] at hsig
    exact hne hsig.symm
  obtain ⟨pending, hpending, hadvance⟩ := h.advance_unregistering hsession now instant
  rw [hadvance]
  refine ⟨?_, ?_, ?_, ?_, ?_, ?_, ?_, ?_, h.alive⟩
  · show Shape (some .clearing) w.guards w.dropped w.process.profiler.running none
    rw [hguards, hdropped, hrun]
    exact .clearing
  · intro b hb
    cases hb
  · intro stage b hstage hb
    cases hstage
    cases hb
  · intro c' hc'
    cases hc'
  · intro sig hsig
    cases hsig
  · intro sig _
    show Function.update w.process.action c.signal _ sig = leftover original { w with
      ran := Function.update w.ran c.signal true } sig
    by_cases hsig : sig = c.signal
    · -- the signal of the session: what is left of it from now on
      rw [hsig, Function.update_self, leftover_of_ran (Function.update_self ..)]
    · have hran : Function.update w.ran c.signal true sig = w.ran sig :=
        Function.update_of_ne hsig ..
      rw [Function.update_of_ne hsig, h.outside sig (hfree sig hsig)]
      simp only [leftover, hran]
  · intro which harmed
    obtain ⟨t, ht, -⟩ := h.armed which harmed
    rw [hguards] at ht
    cases ht
  · intro sig hsig
    refine Or.inl ?_
    show Function.update w.ran c.signal true sig = true
    by_cases hne : sig = c.signal
    · rw [hne, Function.update_self]
    · rw [Function.update_of_ne hne]
      exact (h.pending sig (hpending sig hne hsig)).resolve_right (hfree sig hne)

/-- The missed ticks are reset, and the profiler is running. -/
theorem setRunning (h : w.Tracks original) {b : ProfilerGuardBuilder}
    (hlock : w.lock = some (.registered b)) (now instant : ℕ) :
    (w.advance now instant (.registered b)).Tracks original := by
  have hshape := h.shape
  rw [hlock] at hshape
  obtain ⟨hguards, hdropped, hrun, hsession⟩ := hshape.of_registered
  refine h.keep rfl rfl rfl rfl rfl rfl ?_ nofun ?_ h.armed fun sig hsig => Or.inl hsig
  · show Shape (some (.arming b)) w.guards w.dropped true w.session
    rw [hguards, hdropped, hsession]
    exact .arming
  · intro stage b' hstage hb'
    cases hstage
    cases hb'
    exact h.valid _ b hlock rfl

/-- The profiler is stopped. -/
theorem clear (h : w.Tracks original) (hlock : w.lock = some .clearing) (now instant : ℕ) :
    (w.advance now instant .clearing).Tracks original := by
  have hshape := h.shape
  rw [hlock] at hshape
  obtain ⟨hguards, hdropped, hrun, hsession⟩ := hshape.of_clearing
  refine h.keep rfl rfl rfl rfl rfl rfl ?_ nofun nofun h.armed fun sig hsig => Or.inl hsig
  show Shape none w.guards w.dropped false w.session
  rw [hguards, hdropped, hsession]
  exact .off

/-- A guard that was dropped finds the profiler running, and stops it. -/
theorem stop (h : w.Tracks original) (hlock : w.lock = none) (hpos : 0 < w.dropped) :
    w.process.profiler.running = true ∧
      Tracks original { w with dropped := w.dropped - 1, lock := some .unregistering } := by
  have hshape := h.shape
  rw [hlock] at hshape
  obtain ⟨c, hguards, hdropped, hrun, hsession⟩ := hshape.of_dropped hpos
  refine ⟨hrun, h.keep rfl rfl rfl rfl rfl rfl ?_ nofun ?_ h.armed fun sig hsig => Or.inl hsig⟩
  · show Shape (some .unregistering) w.guards (w.dropped - 1) w.process.profiler.running w.session
    rw [hguards, hdropped, hrun, hsession]
    exact .unregistering
  · intro stage b hstage hb
    cases hstage
    cases hb

/-- A step that changes neither the lock nor the guards, and of the process nothing that
matters here but what is pending. -/
theorem keep_process (h : w.Tracks original) {p : Process β n}
    (haction : p.action = w.process.action)
    (hclock : p.profiler.clockType = w.process.profiler.clockType)
    (hold : p.profiler.oldSigaction = w.process.profiler.oldSigaction)
    (hrun : p.profiler.running = w.process.profiler.running)
    (htimers : p.timers = w.process.timers)
    (hpending : ∀ sig, p.pending sig = true → w.process.pending sig = true ∨ w.Covers sig) :
    Tracks original { w with process := p } := by
  refine h.keep haction hclock hold rfl rfl rfl ?_ ?_ h.valid ?_ hpending
  · show Shape w.lock w.guards w.dropped p.profiler.running w.session
    rw [hrun]
    exact h.shape
  · intro b hb
    show p.profiler.clockType = b.clockType
    rw [hclock]
    exact h.choice b hb
  · intro which harmed
    have : p.timers.Armed which := harmed
    rw [htimers] at this
    exact h.armed which this

/-- An armed timer is the timer of the session. -/
theorem covers_of_armed (h : w.Tracks original) {which : Which}
    (harmed : w.process.timers.Armed which) : w.Covers which.signal := by
  obtain ⟨t, hguards, hwhich⟩ := h.armed which harmed
  have hshape := h.shape
  rw [hguards] at hshape
  obtain ⟨-, -, -, hsession⟩ := hshape.of_guard
  rw [Covers, hsession, ← hwhich, ClockType.signal_which]
  rfl

/-- A timer that expires raises the signal of the session. -/
theorem expire (h : w.Tracks original) {which : Which}
    (harmed : w.process.timers.Armed which) :
    Tracks original { w with process := w.process.raise which.signal } := by
  unfold Process.raise
  split
  · exact h
  · refine h.keep_process rfl rfl rfl rfl rfl fun sig hsig => ?_
    by_cases hne : sig = which.signal
    · exact Or.inr (hne ▸ h.covers_of_armed harmed)
    · refine Or.inl ?_
      have hsig' : Function.update w.process.pending which.signal true sig = true := hsig
      rwa [Function.update_of_ne hne] at hsig'

/-- The delivery of a pending signal kills nobody, and changes no disposition. -/
theorem deliver [MemImage β (Entry UnresolvedFrames)] [NeZero n] (h : w.Tracks original)
    {sig : Signal} (hp : w.process.pending sig = true) {f : Features} {finish : List ℕ → ℕ}
    {t : Tick} (hdeliver : w.deliver f finish sig t = some w') : w'.Tracks original := by
  have hpending : ∀ sig', Function.update w.process.pending sig false sig' = true →
      w.process.pending sig' = true := by
    intro sig' hsig'
    by_cases hne : sig' = sig
    · rw [hne, Function.update_self] at hsig'
      cases hsig'
    · rwa [Function.update_of_ne hne] at hsig'
  unfold World.deliver at hdeliver
  simp only at hdeliver
  split at hdeliver
  · -- the handler: each of its exits changes the profiler's data or a counter only
    split at hdeliver
    · next p' exit hhandler =>
      cases hdeliver
      obtain ⟨-, rfl⟩ | ⟨-, rfl⟩ | ⟨-, rfl⟩ | ⟨frames, -, rfl⟩ :=
        Process.perfSignalHandler_cases f _ hhandler <;>
        exact h.keep_process rfl rfl rfl rfl rfl fun sig' hsig' => Or.inl (hpending sig' hsig')
    · cases hdeliver
  · next hdfl => exact absurd hdfl (h.handler_of_pending hp)
  · cases hdeliver
    exact h.keep_process rfl rfl rfl rfl rfl fun sig' hsig' => Or.inl (hpending sig' hsig')
  · cases hdeliver
    exact h.keep_process rfl rfl rfl rfl rfl fun sig' hsig' => Or.inl (hpending sig' hsig')

/-- The call that holds the lock goes on. -/
theorem advance (h : w.Tracks original) {stage : LockedStage} (hlock : w.lock = some stage)
    (now instant : ℕ) : (w.advance now instant stage).Tracks original := by
  cases stage with
  | registering b => exact h.register hlock now instant
  | registered b => exact h.setRunning hlock now instant
  | arming b => exact h.arm hlock now instant
  | unregistering => exact h.unregister hlock now instant
  | clearing => exact h.clear hlock now instant

/-- **Every step keeps the invariant.** -/
theorem step [MemImage β (Entry UnresolvedFrames)] [NeZero n] (h : w.Tracks original)
    {f : Features} {finish : List ℕ → ℕ} {e : WorldEvent} (he : e.ValidFrequency)
    (hstep : w.step f finish e = some w') : w'.Tracks original := by
  cases e with
  | build b =>
    simp only [World.step] at hstep
    split at hstep
    · next hlock =>
      split at hstep
      · -- rejected: only the stack and the blocked segments are overwritten
        cases hstep
        exact h.keep_process rfl rfl rfl rfl rfl fun sig hsig => Or.inl hsig
      · next hrun =>
        cases hstep
        exact h.begin hlock (Bool.not_eq_true _ ▸ hrun) f he
    · cases hstep
  | drop i =>
    simp only [World.step] at hstep
    split at hstep
    · next g hg =>
      cases hstep
      exact h.dropTimer hg
    · cases hstep
  | stop =>
    simp only [World.step] at hstep
    split at hstep
    · next hready =>
      obtain ⟨hrun, hnext⟩ := h.stop hready.1 hready.2
      rw [if_pos hrun] at hstep
      cases hstep
      exact hnext
    · cases hstep
  | advance now instant =>
    obtain ⟨stage, hlock, rfl⟩ := Option.map_eq_some_iff.mp hstep
    exact h.advance hlock now instant
  | expire which =>
    simp only [World.step] at hstep
    split at hstep
    · next harmed =>
      cases hstep
      exact h.expire harmed
    · cases hstep
  | deliver sig t =>
    simp only [World.step] at hstep
    split at hstep
    · next hp => exact h.deliver hp hstep
    · cases hstep

end Tracks

/-- Who handles which signal. -/
structure Disposed (original : Signal → SigAction) (w : World β n) : Prop where
  /-- The profiler, from registration to unregistration of a session on the signal. -/
  during : ∀ sig, (w.process.action sig).handler = .perfSignalHandler ↔ w.Covers sig
  /-- The application otherwise, but for default dispositions after a session. -/
  otherwise : ∀ sig, ¬w.Covers sig → w.process.action sig = w.leftover original sig
  /-- A timer that is armed raises a signal that the profiler handles. -/
  armed : ∀ which, w.process.timers.Armed which →
    (w.process.action which.signal).handler = .perfSignalHandler
  /-- What is pending is handled, or ignored. -/
  pending : ∀ sig, w.process.pending sig = true → (w.process.action sig).handler ≠ .sigDfl
  alive : w.killed = false

/-- What the profiler leaves is never its own handler, which no application can name. -/
theorem handler_leftover {original : Signal → SigAction}
    (horig : ∀ sig, (original sig).handler ≠ .perfSignalHandler) (w : World β n) (sig : Signal) :
    (w.leftover original sig).handler ≠ .perfSignalHandler := by
  unfold leftover
  split
  · intro hperf
    cases hperf
  · exact horig sig

theorem Tracks.disposed {original : Signal → SigAction} {w : World β n} (h : w.Tracks original)
    (horig : ∀ sig, (original sig).handler ≠ .perfSignalHandler) : w.Disposed original where
  during := by
    intro sig
    constructor
    · intro hperf
      by_contra hfree
      rw [h.outside sig hfree] at hperf
      exact handler_leftover horig w sig hperf
    · exact h.inside sig
  otherwise := h.outside
  armed := fun _ harmed => h.inside _ (h.covers_of_armed harmed)
  pending := fun _ hp => h.handler_of_pending hp
  alive := h.alive

section Runs

variable [MemImage β (Entry UnresolvedFrames)] [NeZero n] {f : Features} {finish : List ℕ → ℕ}

/-- **Who handles which signal, in every run.**  The guards are built with any clock type and
a frequency up to a million, built while another session is running, and dropped, with
timers expiring and signals delivered between any two system calls. -/
theorem disposition_of_reach {original : Signal → SigAction}
    (horig : ∀ sig, (original sig).handler ≠ .perfSignalHandler) {w : World β n}
    (h : Machine.Reach (step f finish) (fun _ e => e.ValidFrequency) (init original) w) :
    w.Disposed original := by
  have htracks : w.Tracks original :=
    h.invariant (Tracks.init original) fun _ _ _ hw he hstep => hw.step he hstep
  exact htracks.disposed horig

end Runs

/-- An application with its own handler for `SIGALRM` and none for `SIGPROF`. -/
def alarmed : Signal → SigAction
  | .sigprof => ⟨.sigDfl, SaFlags.empty, []⟩
  | .sigalrm => ⟨.app 0, SaFlags.empty, [14]⟩

/-- A thread that runs anywhere, with an empty name. -/
def anyTick : Tick where
  lockHeld := false
  ucontext := none
  trace := [⟨50, 4096⟩]
  currentThread := 7
  getname := (0, Vector.replicate maxThreadName 0)
  timestamp := 1
  writes := []

/-- A session on CPU time with a tick, a tick that comes after its timer is gone, and a build
that is rejected; then a session on wall-clock time. -/
def twoSessions : List WorldEvent :=
  [.build ⟨99, .cpu, [], false, []⟩, .advance 0 0, .advance 0 0, .advance 0 0,
    .expire .prof, .deliver .sigprof anyTick, .build ⟨1000, .wall, [], false, []⟩,
    .expire .prof, .drop 0, .stop, .deliver .sigprof anyTick, .advance 9 9, .advance 9 9,
    .build ⟨1000000, .wall, [], true, []⟩, .advance 20 20, .advance 20 20, .advance 20 20,
    .expire .real]

theorem disposition_of_reach_twoSessions :
    letI : MemImage (Entry UnresolvedFrames) (Entry UnresolvedFrames) := MemImage.cell _
    ∃ w : World (Entry UnresolvedFrames) 7,
      Machine.run (step ⟨true, 128⟩ List.sum) (init alarmed) twoSessions = some w ∧
      w.process.action .sigprof = ⟨.sigIgn, SaFlags.empty, []⟩ ∧
      w.process.action .sigalrm = SigAction.profiling true ∧ w.Disposed alarmed := by
  let _ : MemImage (Entry UnresolvedFrames) (Entry UnresolvedFrames) := MemImage.cell _
  have hrun : (Machine.run (step ⟨true, 128⟩ List.sum)
      (init alarmed : World (Entry UnresolvedFrames) 7) twoSessions).map
        (fun w => (w.process.action .sigprof, w.process.action .sigalrm)) =
      some (⟨.sigIgn, SaFlags.empty, []⟩, SigAction.profiling true) := by
    decide +kernel
  obtain ⟨w, hw, hactions⟩ := Option.map_eq_some_iff.mp hrun
  obtain ⟨hprof, halrm⟩ := Prod.mk.inj hactions
  have hvalid : ∀ e ∈ twoSessions, e.ValidFrequency := by decide
  have horig : ∀ sig, (alarmed sig).handler ≠ .perfSignalHandler := by
    intro sig
    cases sig <;> decide
  exact ⟨w, hw, hprof, halrm,
    disposition_of_reach horig (Machine.Reach.of_run (fun _ => hvalid) hw)⟩

end World

end Rpprof
