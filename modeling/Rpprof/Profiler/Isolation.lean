import Rpprof.Profiler.Samples
import Rpprof.Profiler.Signals

/-!
# Handlers in flight

The delivery of a signal to a thread and the handler's attempt to take the lock of the
profiler are two steps here, on any number of threads.  In between the session may be
stopped, and another one started.  The handler looks at nothing but the lock: an invocation
that was delivered in one session and gets the lock after it is over records its sample all
the same.

To say so, the sessions are numbered; every invocation, every guard and every recorded
sample carries the number of the session it belongs to.

## Main definitions

* `Flight`, `Flight.step` — the process, and the invocations on their way to the lock.
* `Flight.Timely` — no invocation records after its session is over.
* `Flight.Isolated` — a report contains samples of its own session only.

## Main results

* `Flight.Inv.step` — a timely step keeps the numbers apart.
* `Flight.isolated_of_reach` — **sessions are isolated** in runs all of whose steps are
  timely.
-/

namespace Rpprof

variable {β : Type*} {n : ℕ}

/-- The process, with numbered sessions. -/
structure Flight (β : Type*) (n : ℕ) where
  world : World β n
  /-- How many sessions have registered their handler; the last one's number. -/
  sessions : ℕ
  /-- The session of each guard. -/
  owners : List ℕ
  /-- The session in which each invocation of the handler that has not tried the lock yet
  was delivered. -/
  inflight : List ℕ
  /-- What was sampled since the collector was new, and the session of the invocation. -/
  recorded : List (ℕ × UnresolvedFrames)

/-- What happens next. -/
inductive FlightEvent where
  /-- A call goes on, or a timer expires. -/
  | world (e : WorldEvent)
  /-- A signal is delivered to a thread. -/
  | arrive (sig : Signal)
  /-- The handler tries the lock, and runs to completion. -/
  | enter (i : ℕ) (t : Tick)
deriving DecidableEq, Repr

/-- The invocation gets the lock and is not blocked, so that it has a sample to record. -/
def Process.records (p : Process β n) (t : Tick) : Bool :=
  !t.lockHeld && !p.profiler.blocks t &&
    match cStr (writeThreadName t.currentThread t.getname.1 t.getname.2.toList) with
    | some name => !p.profiler.isThreadBlocklisted name
    | none => false

namespace Flight

/-- A process that has not used the profiler yet. -/
def init (original : Signal → SigAction) : Flight β n := ⟨World.init original, 0, [], [], []⟩

/-- The numbers after an event that leads to `world`. -/
def follow (w : Flight β n) (e : WorldEvent) (world : World β n) : Flight β n :=
  match e, w.world.lock with
  | .drop i, _ => { w with world := world, owners := w.owners.eraseIdx i }
  | .advance _ _, some (.registering _) =>
    { w with world := world, sessions := w.sessions + 1 }
  | .advance _ _, some (.arming b) =>
    { w with
      world := world
      owners := if b.frequency = 0 then w.owners else w.sessions :: w.owners }
  | .advance _ _, some .clearing => { w with world := world, recorded := [] }
  | _, _ => { w with world := world }

/-- What an invocation of the handler finds: a call may hold the lock. -/
def found (w : Flight β n) (t : Tick) : Tick :=
  { t with lockHeld := t.lockHeld || w.world.lock.isSome }

/-- A signal is delivered. -/
def arrive (w : Flight β n) (sig : Signal) : Flight β n :=
  let p := { w.world.process with
    pending := Function.update w.world.process.pending sig false }
  match (p.action sig).handler with
  | .perfSignalHandler => { w with
      world := { w.world with process := p }
      inflight := w.sessions :: w.inflight }
  | .sigDfl => { w with world := { w.world with process := p, killed := true } }
  | .sigIgn | .app _ => { w with world := { w.world with process := p } }

section Machine

variable [MemImage β (Entry UnresolvedFrames)] [NeZero n] (f : Features) (finish : List ℕ → ℕ)

/-- One event.  A signal is delivered in two steps, by `arrive` and `enter`. -/
def step (w : Flight β n) : FlightEvent → Option (Flight β n)
  | .world (.deliver _ _) => none
  | .world e => (w.world.step f finish e).map (w.follow e)
  | .arrive sig => some (w.arrive sig)
  | .enter i t =>
    match w.inflight[i]? with
    | none => none
    | some session =>
      match w.world.process.perfSignalHandler f (UnresolvedFrames.hash finish) (w.found t) with
      | none => none
      | some (p, exit) => some { w with
          world := { w.world with process := p }
          inflight := w.inflight.eraseIdx i
          recorded := w.recorded ++ (exit.frames?.map fun k => (session, k)).toList }

end Machine

/-- The session in which the invocation was delivered is over. -/
def stale (w : Flight β n) (i : ℕ) : Bool :=
  match w.inflight[i]? with
  | some session => session ≠ w.sessions || w.world.session.isNone
  | none => false

/-- An invocation whose session is over finds the lock held, or is blocked. -/
def Timely (w : Flight β n) : FlightEvent → Prop
  | .enter i t => w.stale i = true → w.world.process.records (w.found t) = false
  | .world _ | .arrive _ => True

instance (w : Flight β n) : ∀ e : FlightEvent, Decidable (w.Timely e)
  | .enter i _ => inferInstanceAs (Decidable (w.stale i = true → _))
  | .world _ | .arrive _ => inferInstanceAs (Decidable True)

/-- The samples recorded by invocations of a session. -/
def samplesOf (w : Flight β n) (session : ℕ) : List UnresolvedFrames :=
  (w.recorded.filter fun r => r.1 = session).map Prod.snd

/-- Every report that a guard can build now has the samples of the guard's session, and no
others. -/
def Isolated [MemImage β (Entry UnresolvedFrames)] (w : Flight β n) : Prop :=
  w.world.lock = none → ∀ session ∈ w.owners,
    w.world.process.profiler.ReportsOnly (w.samplesOf session)

/-! ### The invariant -/

/-- While a call holds the lock, or none does: is the profiler running, is a handler
registered, and how many guards are there, those being dropped included. -/
def Shape (running : Bool) (session : Option ClockType) (guards : ℕ) :
    Option LockedStage → Prop
  | none => session.isSome = running ∧ guards ≤ running.toNat
  | some (.registering _) => running = false ∧ session = none ∧ guards = 0
  | some (.registered _) => running = false ∧ session.isSome = true ∧ guards = 0
  | some (.arming _) | some .unregistering => running = true ∧ session.isSome = true ∧ guards = 0
  | some .clearing => running = true ∧ session = none ∧ guards = 0

variable [MemImage β (Entry UnresolvedFrames)] [NeZero n]

/-- What timely steps keep: everything recorded, and every guard, is of the last session. -/
structure Inv (finish : List ℕ → ℕ) (w : Flight β n) : Prop where
  shape : Shape w.world.process.profiler.running w.world.session
    (w.owners.length + w.world.dropped) w.world.lock
  guards : w.owners.length = w.world.guards.length
  current : ∀ session ∈ w.owners, session = w.sessions
  made : w.world.process.profiler.Made (UnresolvedFrames.hash finish) (w.recorded.map Prod.snd)
  own : ∀ r ∈ w.recorded, r.1 = w.sessions
  /-- Between sessions nothing is recorded, once the collector is new. -/
  empty : w.world.session = none → w.world.lock ≠ some .clearing → w.recorded = []

variable {f : Features} {finish : List ℕ → ℕ} {w w' : Flight β n}

theorem Inv.init (original : Signal → SigAction) :
    Inv finish (init original : Flight β n) where
  shape := ⟨rfl, Nat.le_refl 0⟩
  guards := rfl
  current := by intro session hsession; cases hsession
  made := Profiler.made_nil _ rfl
  own := by intro r hr; cases hr
  empty := fun _ _ => rfl

/-- A guard's reports contain what the invariant says was recorded. -/
theorem Inv.isolated (h : Inv finish w) : w.Isolated := by
  intro _ session hsession
  have hall : w.recorded.filter (fun r => r.1 = session) = w.recorded := by
    rw [List.filter_eq_self]
    intro r hr
    rw [h.own r hr, h.current session hsession, decide_eq_true_eq]
  rw [samplesOf, hall]
  exact h.made.reportsOnly

/-! ### Calls -/

theorem Inv.build (h : Inv finish w) (b : ProfilerGuardBuilder)
    (hstep : w.step f finish (.world (.build b)) = some w') : Inv finish w' := by
  simp only [step, World.step] at hstep
  split at hstep
  · next hlock =>
    have hshape := h.shape
    rw [hlock] at hshape
    have hclear : w.world.lock ≠ some .clearing := by
      rw [hlock]
      intro hno
      cases hno
    split at hstep
    · cases hstep
      exact ⟨h.shape, h.guards, h.current, h.made, h.own, h.empty⟩
    · next hrun =>
      cases hstep
      have hoff : w.world.process.profiler.running = false := Bool.not_eq_true _ ▸ hrun
      obtain ⟨hsession, hguards⟩ := hshape
      rw [hoff] at hsession hguards
      have hnone : w.world.session = none := by
        rw [← Option.not_isSome_iff_eq_none, hsession]
        decide
      exact ⟨⟨hoff, hnone, Nat.le_zero.mp hguards⟩, h.guards, h.current, h.made, h.own,
        fun hs _ => h.empty hs hclear⟩
  · cases hstep

theorem Inv.drop (h : Inv finish w) (i : ℕ)
    (hstep : w.step f finish (.world (.drop i)) = some w') : Inv finish w' := by
  simp only [step, World.step] at hstep
  split at hstep
  · next g hg =>
    cases hstep
    obtain ⟨hlt, -⟩ := List.getElem?_eq_some_iff.mp hg
    have hframe := Process.profiler_dropTimer w.world.process g
    have hlength : (w.owners.eraseIdx i).length + 1 = w.owners.length := by
      rw [List.length_eraseIdx_of_lt (h.guards ▸ hlt)]
      have := h.guards
      omega
    refine ⟨?_, ?_, fun k hk => h.current k (List.mem_of_mem_eraseIdx hk), ?_, h.own, h.empty⟩
    · show Shape (w.world.process.dropTimer g).profiler.running w.world.session
        ((w.owners.eraseIdx i).length + (w.world.dropped + 1)) w.world.lock
      rw [hframe, show (w.owners.eraseIdx i).length + (w.world.dropped + 1) =
        w.owners.length + w.world.dropped by omega]
      exact h.shape
    · show (w.owners.eraseIdx i).length = (w.world.guards.eraseIdx i).length
      rw [List.length_eraseIdx_of_lt hlt, ← h.guards]
      omega
    · show Profiler.Made _ (w.world.process.dropTimer g).profiler _
      rw [hframe]
      exact h.made
  · cases hstep

theorem Inv.stop (h : Inv finish w)
    (hstep : w.step f finish (.world .stop) = some w') : Inv finish w' := by
  simp only [step, World.step] at hstep
  split at hstep
  · next hready =>
    obtain ⟨hlock, hpos⟩ := hready
    obtain ⟨hsession, hguards⟩ : w.world.session.isSome = w.world.process.profiler.running ∧
        w.owners.length + w.world.dropped ≤ w.world.process.profiler.running.toNat := by
      have hshape := h.shape
      rwa [hlock] at hshape
    split at hstep
    · next hrun =>
      cases hstep
      rw [hrun] at hsession hguards
      refine ⟨⟨hrun, hsession, ?_⟩, h.guards, h.current, h.made, h.own, ?_⟩
      · show w.owners.length + (w.world.dropped - 1) = 0
        have : (true).toNat = 1 := rfl
        omega
      · intro hno _
        have hnone : w.world.session = none := hno
        rw [hnone] at hsession
        cases hsession
    · next hrun =>
      rw [Bool.not_eq_true] at hrun
      rw [hrun] at hguards
      have : (false).toNat = 0 := rfl
      omega
  · cases hstep

/-- A session begins, with nothing recorded. -/
theorem Inv.registering (h : Inv finish w) {b : ProfilerGuardBuilder}
    (hlock : w.world.lock = some (.registering b)) (now instant : ℕ) :
    Inv finish (w.follow (.advance now instant)
      (w.world.advance now instant (.registering b))) := by
  obtain ⟨hrun, hsession, hzero⟩ : w.world.process.profiler.running = false ∧
      w.world.session = none ∧ w.owners.length + w.world.dropped = 0 := by
    have hshape := h.shape
    rwa [hlock] at hshape
  have hnothing : w.recorded = [] := h.empty hsession (by rw [hlock]; intro hno; cases hno)
  have howners : w.owners = [] := List.eq_nil_of_length_eq_zero (by omega)
  have hmade := h.made
  rw [hnothing] at hmade
  simp only [follow, hlock, hnothing, howners]
  refine ⟨⟨hrun, rfl, ?_⟩, ?_, ?_, hmade, ?_, fun _ _ => rfl⟩
  · show ([] : List ℕ).length + w.world.dropped = 0
    rw [List.length_nil]
    omega
  · rw [← howners]
    exact h.guards
  · intro k hk
    cases hk
  · intro r hr
    cases hr

/-- A guard is handed out, unless its timer could not be set. -/
theorem Inv.arming (h : Inv finish w) {b : ProfilerGuardBuilder}
    (hlock : w.world.lock = some (.arming b)) (now instant : ℕ) :
    Inv finish (w.follow (.advance now instant) (w.world.advance now instant (.arming b))) := by
  obtain ⟨hrun, hsession, hzero⟩ : w.world.process.profiler.running = true ∧
      w.world.session.isSome = true ∧ w.owners.length + w.world.dropped = 0 := by
    have hshape := h.shape
    rwa [hlock] at hshape
  have hon : ∀ {P : Prop}, w.world.session = none → P := by
    intro P hnone
    rw [hnone] at hsession
    cases hsession
  simp only [follow, hlock, World.advance, Timer.withClockType]
  by_cases hb : b.frequency = 0
  · simp only [hb, if_true]
    exact ⟨⟨by rw [hsession, hrun], by rw [hzero]; exact Nat.zero_le _⟩, h.guards, h.current,
      h.made, h.own, fun hnone _ => hon hnone⟩
  · simp only [hb, if_false]
    refine ⟨⟨by rw [hsession, hrun], ?_⟩, ?_, ?_, h.made, h.own, fun hnone _ => hon hnone⟩
    · show (w.sessions :: w.owners).length + w.world.dropped ≤
        w.world.process.profiler.running.toNat
      rw [hrun, List.length_cons]
      have : (true).toNat = 1 := rfl
      omega
    · show (w.sessions :: w.owners).length = (_ :: w.world.guards).length
      rw [List.length_cons, List.length_cons, h.guards]
    · intro k hk
      rcases List.mem_cons.mp hk with rfl | hk
      · rfl
      · exact h.current k hk

/-- The call that holds the lock goes on: what a session recorded is gone before the lock is
released. -/
theorem Inv.advance (h : Inv finish w) (now instant : ℕ)
    (hstep : w.step f finish (.world (.advance now instant)) = some w') : Inv finish w' := by
  simp only [step, World.step] at hstep
  obtain ⟨world, hworld, rfl⟩ := Option.map_eq_some_iff.mp hstep
  obtain ⟨stage, hlock, rfl⟩ := Option.map_eq_some_iff.mp hworld
  have hshape := h.shape
  rw [hlock] at hshape
  cases stage with
  | registering b => exact h.registering hlock now instant
  | arming b => exact h.arming hlock now instant
  | registered b =>
    simp only [follow, hlock]
    obtain ⟨-, hsession, hzero⟩ := hshape
    refine ⟨⟨rfl, hsession, hzero⟩, h.guards, h.current, h.made, h.own, ?_⟩
    intro hno _
    have hnone : w.world.session = none := hno
    rw [hnone] at hsession
    cases hsession
  | unregistering =>
    simp only [follow, hlock]
    obtain ⟨hrun, hsession, hzero⟩ := hshape
    refine ⟨⟨?_, rfl, hzero⟩, h.guards, h.current, ?_, h.own, ?_⟩
    · exact (Process.running_unregisterSignalHandler w.world.process Answers.ok).trans hrun
    · obtain ⟨calls, hone, hkeys, hdata⟩ := h.made
      exact ⟨calls, hone, hkeys,
        (Process.data_unregisterSignalHandler w.world.process Answers.ok).trans hdata⟩
    · intro _ hno
      exact absurd rfl hno
  | clearing =>
    simp only [follow, hlock]
    obtain ⟨-, hsession, hzero⟩ := hshape
    refine ⟨⟨?_, ?_⟩, h.guards, h.current, Profiler.made_nil _ rfl, ?_, fun _ _ => rfl⟩
    · show w.world.session.isSome = false
      rw [hsession]
      rfl
    · show w.owners.length + w.world.dropped ≤ 0
      omega
    · intro r hr
      cases hr

theorem Inv.expire (h : Inv finish w) (which : Which)
    (hstep : w.step f finish (.world (.expire which)) = some w') : Inv finish w' := by
  simp only [step, World.step] at hstep
  split at hstep
  · cases hstep
    have hframe : (w.world.process.raise which.signal).profiler = w.world.process.profiler := by
      unfold Process.raise
      split <;> rfl
    refine ⟨?_, h.guards, h.current, ?_, h.own, h.empty⟩
    · show Shape (w.world.process.raise which.signal).profiler.running _ _ _
      rw [hframe]
      exact h.shape
    · show Profiler.Made _ (w.world.process.raise which.signal).profiler _
      rw [hframe]
      exact h.made
  · cases hstep

/-! ### Invocations of the handler -/

theorem Inv.arrive (h : Inv finish w) (sig : Signal) : Inv finish (w.arrive sig) := by
  unfold Flight.arrive
  simp only
  split <;> exact ⟨h.shape, h.guards, h.current, h.made, h.own, h.empty⟩

/-- A sample comes from an invocation that records. -/
theorem records_of_sampled {hash : UnresolvedFrames → ℕ} {p p' : Process β n} {t : Tick}
    {frames : UnresolvedFrames}
    (hrun : p.perfSignalHandler f hash t = some (p', .sampled frames)) : p.records t = true := by
  unfold Process.perfSignalHandler at hrun
  unfold Process.records
  split at hrun
  · cases hrun
  · next hlock =>
    rw [Bool.not_eq_true] at hlock
    split at hrun
    · cases hrun
    · next hblocks =>
      rw [Bool.not_eq_true] at hblocks
      simp only at hrun
      split at hrun
      · cases hrun
      · next name hname =>
        split at hrun
        · cases hrun
        · next hthread =>
          rw [Bool.not_eq_true] at hthread
          rw [hlock, hblocks, hname]
          simp only [hthread]
          rfl

/-- A handler that is turned away leaves what was recorded. -/
theorem Inv.turnedAway (h : Inv finish w) {p : Process β n}
    (hprofiler : p.profiler = w.world.process.profiler) {recorded : List (ℕ × UnresolvedFrames)}
    (hrecorded : recorded = []) (i : ℕ) : Inv finish { w with
      world := { w.world with process := p }
      inflight := w.inflight.eraseIdx i
      recorded := w.recorded ++ recorded } := by
  rw [hrecorded, List.append_nil]
  refine ⟨?_, h.guards, h.current, ?_, h.own, h.empty⟩
  · show Shape p.profiler.running _ _ _
    rw [hprofiler]
    exact h.shape
  · show Profiler.Made _ p.profiler _
    rw [hprofiler]
    exact h.made

/-- A handler that gets the lock while its session is on adds to that session; one that
comes too late and is turned away adds to none. -/
theorem Inv.enter (h : Inv finish w) {i : ℕ} {t : Tick} (htimely : w.Timely (.enter i t))
    (hstep : w.step f finish (.enter i t) = some w') : Inv finish w' := by
  simp only [step] at hstep
  split at hstep
  · cases hstep
  · next session hi =>
    split at hstep
    · cases hstep
    · next p exit hrun =>
      cases hstep
      rcases Process.perfSignalHandler_cases f _ hrun with
        ⟨rfl, rfl⟩ | ⟨rfl, rfl⟩ | ⟨rfl, rfl⟩ | ⟨frames, rfl, rfl⟩
      · exact h.turnedAway (p := { w.world.process with
          missedSamples := w.world.process.missedSamples + 1 }) rfl rfl i
      · exact h.turnedAway rfl rfl i
      · exact h.turnedAway rfl rfl i
      · -- whoever records is not stale
        have hfresh : w.stale i = false := by
          rw [← Bool.not_eq_true]
          intro hstale
          have hrecords := htimely hstale
          rw [records_of_sampled hrun] at hrecords
          cases hrecords
        rw [stale, hi] at hfresh
        simp only [ne_eq, decide_not, Bool.or_eq_false_iff, Bool.not_eq_false',
          decide_eq_true_eq] at hfresh
        obtain ⟨rfl, hsession⟩ := hfresh
        refine ⟨h.shape, h.guards, h.current, ?_, ?_, ?_⟩
        · show Profiler.Made _ _ ((w.recorded ++ [(w.sessions, frames)]).map Prod.snd)
          rw [List.map_append]
          exact h.made.sample frames _
        · intro r hr
          rcases List.mem_append.mp hr with hold | hnew
          · exact h.own r hold
          · rw [List.mem_singleton.mp hnew]
        · intro hno _
          have hnone : w.world.session = none := hno
          rw [hnone] at hsession
          cases hsession

/-- **A timely step keeps the sessions apart.** -/
theorem Inv.step (h : Inv finish w) {e : FlightEvent} (htimely : w.Timely e)
    (hstep : w.step f finish e = some w') : Inv finish w' := by
  cases e with
  | arrive sig =>
    cases hstep
    exact h.arrive sig
  | enter i t => exact h.enter htimely hstep
  | world e =>
    cases e with
    | build b => exact h.build b hstep
    | drop i => exact h.drop i hstep
    | stop => exact h.stop hstep
    | advance now instant => exact h.advance now instant hstep
    | expire which => exact h.expire which hstep
    | deliver sig t => cases hstep

/-- **Sessions are isolated** in every run in which no invocation of the handler records
after the session it was delivered in is over. -/
theorem isolated_of_reach {original : Signal → SigAction}
    (hreach : Machine.Reach (step f finish) Timely (init original) w) : w.Isolated :=
  (hreach.invariant (Inv.init original) fun _ _ _ h htimely hstep =>
    h.step htimely hstep).isolated

/-- A session is started on CPU time. -/
def opening : List FlightEvent :=
  [.world (.build ⟨99, .cpu, [], false, []⟩), .world (.advance 0 0), .world (.advance 0 0),
    .world (.advance 0 0)]

/-- Its timer expires, and the signal is delivered to a thread. -/
def ticking : List FlightEvent := [.world (.expire .prof), .arrive .sigprof]

/-- Its guard is dropped. -/
def closing : List FlightEvent :=
  [.world (.drop 0), .world .stop, .world (.advance 9 9), .world (.advance 9 9)]

/-- The handler runs at once; then another session is started. -/
def onTime : List FlightEvent :=
  opening ++ ticking ++ [.enter 0 World.anyTick] ++ closing ++ opening

theorem isolated_of_reach_onTime :
    letI : MemImage (Entry UnresolvedFrames) (Entry UnresolvedFrames) := MemImage.cell _
    ∃ w : Flight (Entry UnresolvedFrames) 7,
      Machine.run (step ⟨false, 128⟩ List.sum) (init World.alarmed) onTime = some w ∧
      w.Isolated := by
  let _ : MemImage (Entry UnresolvedFrames) (Entry UnresolvedFrames) := MemImage.cell _
  have hrun : (Machine.run (step ⟨false, 128⟩ List.sum)
      (init World.alarmed : Flight (Entry UnresolvedFrames) 7) onTime).isSome = true := by
    decide +kernel
  have htimely : Machine.Throughout (step ⟨false, 128⟩ List.sum) Timely
      (init World.alarmed : Flight (Entry UnresolvedFrames) 7) onTime := by
    decide +kernel
  obtain ⟨w, hw⟩ := Option.isSome_iff_exists.mp hrun
  exact ⟨w, hw, isolated_of_reach (Machine.Reach.of_throughout htimely hw)⟩

/-- The handler is delivered in the first session, and tries the lock in the second. -/
def tooLate : List FlightEvent :=
  opening ++ ticking ++ closing ++ opening ++ [.enter 0 World.anyTick]

/-- The report of the second session has the sample of the first. -/
theorem tooLate_not_isolated :
    letI : MemImage (Entry UnresolvedFrames) (Entry UnresolvedFrames) := MemImage.cell _
    ∃ w : Flight (Entry UnresolvedFrames) 7,
      Machine.run (step ⟨false, 128⟩ List.sum) (init World.alarmed) tooLate = some w ∧
      ¬w.Isolated := by
  let _ : MemImage (Entry UnresolvedFrames) (Entry UnresolvedFrames) := MemImage.cell _
  let total (w : Flight (Entry UnresolvedFrames) 7) : Option ℕ :=
    match ReportBuilder.buildUnresolved ⟨none, default⟩ (.ok w.world.process.profiler) 0 with
    | .ok report => some (totalSamples report.data)
    | .error _ => none
  have hvalues : (Machine.run (step ⟨false, 128⟩ List.sum) (init World.alarmed) tooLate).map
      (fun w => (w.world.lock, w.owners, (w.samplesOf 2).length, total w)) =
      some (none, [2], 0, some 1) := by
    decide +kernel
  obtain ⟨w, hw, hpair⟩ := Option.map_eq_some_iff.mp hvalues
  simp only [Prod.mk.injEq] at hpair
  obtain ⟨hlock, howners, hsamples, htotal⟩ := hpair
  refine ⟨w, hw, fun hisolated => ?_⟩
  have honly := hisolated hlock 2 (by rw [howners]; exact List.mem_singleton_self 2)
  simp only [total] at htotal
  split at htotal
  · next report hreport =>
    obtain ⟨hzero, -⟩ := honly.unresolved _ _ report hreport
    rw [Option.some.injEq, hzero, hsamples] at htotal
    cases htotal
  · cases htotal

end Flight

end Rpprof
