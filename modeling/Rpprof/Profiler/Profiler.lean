import Rpprof.Collector.Collector
import Rpprof.Profiler.Frames
import Rpprof.Profiler.Timer

/-!
# The profiler and its signal handler

The one profiler of a process: what it has collected, whether it is running, and what
it has saved of the process it changes.  Starting it installs its handler for the
signal of its clock, stopping it restores what was there; the handler records one
sample, or says why it does not.

What the operating system answers is an argument.  A handler that panics or reads past
its buffer has no result.

## Main definitions

* `Profiler`, `Process` — the profiler and the process state it touches.
* `Process.start`, `Process.stop`, `Process.build`, `Process.dropGuard` — the code.
* `Process.perfSignalHandler` — the handler, with the exit it takes.

## Main results

* `Process.start_spec`, `Process.build_spec`, `Process.perfSignalHandler_cases` — what each
  can do.
-/

namespace Rpprof

/-! ### Signals -/

/-- The two profiling signals. -/
inductive Signal where
  | sigprof
  | sigalrm
deriving DecidableEq, Repr

/-- The signal that a clock type's timer raises. -/
def ClockType.signal : ClockType → Signal
  | .cpu => .sigprof
  | .wall => .sigalrm

/-- The signal that an interval timer raises. -/
def Which.signal : Which → Signal
  | .prof => .sigprof
  | .real => .sigalrm

theorem ClockType.signal_which (c : ClockType) : c.which.signal = c.signal := by
  cases c <;> rfl

/-- `SigHandler`, with the profiler's own told apart from the application's. -/
inductive SigHandler where
  | sigDfl
  | sigIgn
  | app (handler : ℕ)
  | perfSignalHandler
deriving DecidableEq, Repr

/-- `SaFlags`. -/
structure SaFlags where
  siginfo : Bool
  restart : Bool
  onStack : Bool
  other : ℕ
deriving DecidableEq, Repr

/-- `SaFlags::empty`. -/
def SaFlags.empty : SaFlags := ⟨false, false, false, 0⟩

/-- `SigAction`. -/
structure SigAction where
  handler : SigHandler
  flags : SaFlags
  mask : List ℕ
deriving DecidableEq, Repr

namespace SigAction

/-- What the profiler installs: `SA_SIGINFO | SA_RESTART`, and `SA_ONSTACK` if asked. -/
def profiling (onStack : Bool) : SigAction := ⟨.perfSignalHandler, ⟨true, true, onStack, 0⟩, []⟩

/-- What the profiler leaves behind where the disposition was the default one. -/
def ignore : SigAction := ⟨.sigIgn, SaFlags.empty, []⟩

end SigAction

/-- `Error`. -/
inductive Error where
  | nixError (errno : ℕ)
  | ioError (e : IoError)
  | creatingError
  | running
  | notRunning
deriving DecidableEq, Repr

/-! ### The profiler -/

instance : Inhabited UnresolvedFrames := ⟨UnresolvedFrames.default 0⟩

/-- The build-time choices: the frame-pointer unwinder, and `MAX_DEPTH`. -/
structure Features where
  framePointer : Bool
  maxDepth : ℕ
deriving DecidableEq, Repr

/-- `Profiler`. -/
structure Profiler (β : Type*) (n : ℕ) where
  data : Collector UnresolvedFrames β n
  /-- An `i32`. -/
  sampleCounter : Int32
  oldSigaction : Option SigAction
  running : Bool
  clockType : ClockType
  threadBlocklist : List (List UInt8)
  onStack : Bool
  blocklistSegments : List (ℕ × ℕ)

/-- The process: its profiler, `MISSED_SAMPLES`, and what the kernel keeps for it. -/
structure Process (β : Type*) (n : ℕ) where
  profiler : Profiler β n
  missedSamples : ℕ
  action : Signal → SigAction
  pending : Signal → Bool
  timers : Timers

/-- `ProfilerGuardBuilder`. -/
structure ProfilerGuardBuilder where
  frequency : ℤ
  clockType : ClockType
  threadBlocklist : List (List UInt8)
  onStack : Bool
  blocklistSegments : List (ℕ × ℕ)
deriving DecidableEq, Repr

/-- `ProfilerGuardBuilder::default`. -/
instance : Inhabited ProfilerGuardBuilder := ⟨⟨99, .cpu, [], false, []⟩⟩

/-- `ProfilerGuard`. -/
structure ProfilerGuard where
  timer : Option Timer
deriving DecidableEq, Repr

/-- What the operating system answers to `sigaction` and to the temp file's creation. -/
structure Answers where
  sigaction : Except ℕ Unit
  tempFile : Except IoError Unit

/-- Everything succeeds. -/
def Answers.ok : Answers := ⟨.ok (), .ok ()⟩

variable {β : Type*} {n : ℕ}

namespace Profiler

/-- `slice::windows`. -/
def windows (k : ℕ) (l : List UInt8) : List (List UInt8) :=
  (List.range (l.length + 1 - k)).map fun i => (l.drop i).take k

/-- `is_thread_blocklisted`. -/
def isThreadBlocklisted (p : Profiler β n) (threadName : List UInt8) : Bool :=
  p.threadBlocklist.any fun blocked =>
    !blocked.isEmpty && (windows blocked.length threadName).any (· == blocked)

/-- `is_blocklisted`. -/
def isBlocklisted (p : Profiler β n) (addr : ℕ) : Bool :=
  p.blocklistSegments.any fun libs => decide (addr > libs.1) && decide (addr < libs.2)

/-- `Profiler::new`, once its temp file is created. -/
def new : Profiler β n where
  data := Collector.new
  sampleCounter := 0
  oldSigaction := none
  running := false
  clockType := .cpu
  threadBlocklist := []
  onStack := false
  blocklistSegments := []

variable [MemImage β (Entry UnresolvedFrames)] [NeZero n]

/-- `Profiler::sample`, after `UnresolvedFrames::new`; the error of a failed spill is
dropped. -/
def sample (hash : UnresolvedFrames → ℕ) (p : Profiler β n) (frames : UnresolvedFrames)
    (writes : List WriteResult) : Profiler β n :=
  { p with
    sampleCounter := p.sampleCounter + 1
    data := (p.data.add hash ⟨frames, 1, writes⟩).1 }

end Profiler

namespace Process

/-! ### Starting and stopping -/

/-- The system call: the old action comes back, and what is pending is discarded when it
is to be ignored. -/
def sigaction (s : Process β n) (sig : Signal) (new : SigAction) (answer : Except ℕ Unit) :
    Process β n × Except Error SigAction :=
  match answer with
  | .error e => (s, .error (.nixError e))
  | .ok () => ({ s with
      action := Function.update s.action sig new
      pending := if new.handler = .sigIgn then Function.update s.pending sig false else s.pending },
      .ok (s.action sig))

/-- `register_signal_handler`. -/
def registerSignalHandler (s : Process β n) (a : Answers) : Process β n × Except Error Unit :=
  match s.sigaction s.profiler.clockType.signal (SigAction.profiling s.profiler.onStack)
    a.sigaction with
  | (s', .error e) => (s', .error e)
  | (s', .ok old) => ({ s' with profiler := { s'.profiler with oldSigaction := some old } }, .ok ())

/-- `unregister_signal_handler`. -/
def unregisterSignalHandler (s : Process β n) (a : Answers) : Process β n × Except Error Unit :=
  match s.profiler.oldSigaction with
  | none => (s, .ok ())
  | some old =>
    -- `take`, before the call that may fail
    let s₁ := { s with profiler := { s.profiler with oldSigaction := none } }
    let new := if old.handler = .sigDfl then SigAction.ignore else old
    match s₁.sigaction s.profiler.clockType.signal new a.sigaction with
    | (s₂, .error e) => (s₂, .error e)
    | (s₂, .ok _) => (s₂, .ok ())

/-- The first half of `Profiler::start`: the choices of the session, unless one is
running. -/
def choose (s : Process β n) (clockType : ClockType) (threadBlocklist : List (List UInt8)) :
    Process β n :=
  { s with profiler := { s.profiler with
    clockType := clockType
    threadBlocklist := threadBlocklist } }

/-- The second half: the handler is registered. -/
def setRunning (s : Process β n) : Process β n :=
  { s with missedSamples := 0, profiler := { s.profiler with running := true } }

/-- `Profiler::start`. -/
def start (s : Process β n) (clockType : ClockType) (threadBlocklist : List (List UInt8))
    (a : Answers) : Process β n × Except Error Unit :=
  if s.profiler.running then (s, .error .running)
  else match (s.choose clockType threadBlocklist).registerSignalHandler a with
    | (s', .error e) => (s', .error e)
    | (s', .ok ()) => (s'.setRunning, .ok ())

/-- `Profiler::init`. -/
def init (s : Process β n) (a : Answers) : Process β n × Except Error Unit :=
  let s₁ := { s with profiler := { s.profiler with sampleCounter := 0 } }
  match a.tempFile with
  | .error e => (s₁, .error (.ioError e))
  | .ok () =>
    ({ s₁ with profiler := { s₁.profiler with data := Collector.new, running := false } }, .ok ())

/-- `Profiler::stop`. -/
def stop (s : Process β n) (a : Answers) : Process β n × Except Error Unit :=
  if s.profiler.running then
    match s.unregisterSignalHandler a with
    | (s₁, .error e) => (s₁, .error e)
    | (s₁, .ok ()) => s₁.init a
  else (s, .error .notRunning)

/-- What `ProfilerGuardBuilder::build` sets before it starts the profiler. -/
def configure (f : Features) (s : Process β n) (b : ProfilerGuardBuilder) : Process β n :=
  { s with profiler := { s.profiler with
    onStack := if f.framePointer then b.onStack else s.profiler.onStack
    blocklistSegments := b.blocklistSegments } }

/-- `ProfilerGuardBuilder::build`, with the profiler created; `none` is the panic of the
timer. -/
def build (f : Features) (s : Process β n) (b : ProfilerGuardBuilder) (a : Answers)
    (now instant : ℕ) : Process β n × Option (Except Error ProfilerGuard) :=
  match (s.configure f b).start b.clockType b.threadBlocklist a with
  | (s', .error e) => (s', some (.error e))
  | (s', .ok ()) =>
    match Timer.withClockType b.frequency b.clockType now instant s'.timers with
    | none => (s', none)
    | some (timer, timers) => ({ s' with timers := timers }, some (.ok ⟨some timer⟩))

/-- The first half of `ProfilerGuard::drop`: the timer goes first. -/
def dropTimer (s : Process β n) (g : ProfilerGuard) : Process β n :=
  match g.timer with
  | some timer => { s with timers := timer.drop s.timers }
  | none => s

/-- `ProfilerGuard::drop`; an error of `stop` is only logged. -/
def dropGuard (s : Process β n) (g : ProfilerGuard) (a : Answers) : Process β n :=
  ((s.dropTimer g).stop a).1

@[simp] theorem profiler_dropTimer (s : Process β n) (g : ProfilerGuard) :
    (s.dropTimer g).profiler = s.profiler := by
  unfold dropTimer
  split <;> rfl

@[simp] theorem action_dropTimer (s : Process β n) (g : ProfilerGuard) :
    (s.dropTimer g).action = s.action := by
  unfold dropTimer
  split <;> rfl

@[simp] theorem running_unregisterSignalHandler (s : Process β n) (a : Answers) :
    (s.unregisterSignalHandler a).1.profiler.running = s.profiler.running := by
  unfold unregisterSignalHandler sigaction
  split
  · rfl
  · cases a.sigaction <;> rfl

@[simp] theorem data_unregisterSignalHandler (s : Process β n) (a : Answers) :
    (s.unregisterSignalHandler a).1.profiler.data = s.profiler.data := by
  unfold unregisterSignalHandler sigaction
  split
  · rfl
  · cases a.sigaction <;> rfl

section Start

variable {s s' : Process β n} {clockType : ClockType} {threadBlocklist : List (List UInt8)}
  {a : Answers}

/-- **A start that succeeds**: nothing was running, and the counter of missed ticks is
back at zero. -/
theorem start_spec (h : s.start clockType threadBlocklist a = (s', .ok ())) :
    s.profiler.running = false ∧ s'.profiler.running = true ∧ s'.missedSamples = 0 ∧
      s'.profiler.data = s.profiler.data := by
  unfold start at h
  split at h
  · cases h
  · next hrun =>
    rw [Bool.not_eq_true] at hrun
    simp only [registerSignalHandler, sigaction] at h
    cases ha : a.sigaction with
    | error e =>
      rw [ha] at h
      cases h
    | ok u =>
      rw [ha] at h
      cases h
      exact ⟨hrun, rfl, rfl, rfl⟩

/-- A start, whether it succeeds or not, arms no timer and blocks no library. -/
theorem start_frame (s : Process β n) (clockType : ClockType)
    (threadBlocklist : List (List UInt8)) (a : Answers) :
    (s.start clockType threadBlocklist a).1.timers = s.timers ∧
      (s.start clockType threadBlocklist a).1.profiler.blocklistSegments =
        s.profiler.blocklistSegments := by
  unfold start registerSignalHandler sigaction
  split
  · exact ⟨rfl, rfl⟩
  · cases a.sigaction <;> exact ⟨rfl, rfl⟩

end Start

/-- **A builder that returns a guard** has started the profiler, and then set the timer of its
clock, with whatever success. -/
theorem build_spec {f : Features} {s s' : Process β n} {b : ProfilerGuardBuilder} {a : Answers}
    {now instant : ℕ} {g : ProfilerGuard}
    (h : s.build f b a now instant = (s', some (.ok g))) :
    ∃ s₁, (s.configure f b).start b.clockType b.threadBlocklist a = (s₁, .ok ()) ∧
      s' = { s₁ with
        timers := setitimer s₁.timers b.clockType.which
          ⟨Timer.timeval b.frequency, Timer.timeval b.frequency⟩ } ∧
      g = ⟨some ⟨b.frequency, b.clockType, now, instant⟩⟩ := by
  unfold build at h
  split at h
  · cases h
  · next s₁ hstart =>
    rw [Timer.withClockType] at h
    split_ifs at h
    · cases h
    · cases h
      exact ⟨s₁, hstart, rfl, rfl⟩

end Process

/-! ### The thread's name -/

/-- The first loop of `write_thread_name_fallback`: a power of ten that is at least the
value, and its exponent, below `MAX_THREAD_NAME` rounds. -/
def fallbackScale (currentThread : ℕ) : ℕ → ℕ → ℕ → ℕ × ℕ
  | 0, base, len => (base, len)
  | rounds + 1, base, len =>
    if currentThread > base then fallbackScale currentThread rounds (base * 10) (len + 1)
    else (base, len)

/-- The second loop: one digit a round. -/
def fallbackDigits (currentThread : ℕ) : ℕ → ℕ → ℕ → List UInt8 → List UInt8
  | 0, _, _, name => name
  | rounds + 1, base, index, name =>
    if base > 1 then
      fallbackDigits currentThread rounds (base / 10) (index + 1)
        (name.set index (UInt8.ofNat (48 + currentThread / (base / 10) % 10)))
    else name

/-- `write_thread_name_fallback`. -/
def writeThreadNameFallback (currentThread : ℕ) (name : List UInt8) : List UInt8 :=
  let (base, len) := fallbackScale currentThread maxThreadName 1 0
  fallbackDigits currentThread len base 0 name

/-- `write_thread_name`: what `pthread_getname_np` returned, and the buffer after it. -/
def writeThreadName (currentThread : ℕ) (ret : ℤ) (name : List UInt8) : List UInt8 :=
  if ret ≠ 0 ∨ name.head? = some 0 then writeThreadNameFallback currentThread name else name

/-- `CStr::from_ptr(..).to_bytes()`; `none` is the read past a buffer without a NUL. -/
def cStr (name : List UInt8) : Option (List UInt8) :=
  if (0 : UInt8) ∈ name then some (name.takeWhile (· ≠ 0)) else none

/-! ### The handler -/

/-- What an invocation of the handler finds. -/
structure Tick where
  /-- Somebody holds `PROFILER`. -/
  lockHeld : Bool
  /-- The interrupted address; `none` for a null context. -/
  ucontext : Option ℕ
  /-- The frames the unwinder calls back with, for as long as it is told to go on. -/
  trace : List Frame
  currentThread : ℕ
  /-- What `pthread_getname_np` returns and leaves in the buffer. -/
  getname : ℤ × Vector UInt8 maxThreadName
  timestamp : ℕ
  /-- The answers to the writes of a spill. -/
  writes : List WriteResult
deriving DecidableEq, Repr

/-- How an invocation ends. -/
inductive Exit where
  /-- The lock was held: the tick is counted as missed. -/
  | missed
  /-- The interrupted address is in a blocked library. -/
  | addressBlocked
  /-- The thread's name is blocked. -/
  | threadBlocked
  /-- The sample was handed to `sample`. -/
  | sampled (frames : UnresolvedFrames)

namespace Profiler

/-- The callback of the unwinder: `bt` so far, at most `MAX_DEPTH` frames of it. -/
def collect (f : Features) (p : Profiler β n) : List Frame → List Frame → List Frame
  | [], bt => bt
  | frame :: rest, bt =>
    if f.framePointer && p.isBlocklisted frame.ip then bt
    else if bt.length < f.maxDepth then collect f p rest (bt ++ [frame])
    else bt

/-- The interrupted address is blocked; a null context is never looked at. -/
def blocks (p : Profiler β n) (t : Tick) : Bool :=
  match t.ucontext with
  | some addr => p.isBlocklisted addr
  | none => false

end Profiler

namespace Process

variable [MemImage β (Entry UnresolvedFrames)] [NeZero n] (f : Features)
  (hash : UnresolvedFrames → ℕ)

/-- `perf_signal_handler`, with the exit it takes. -/
def perfSignalHandler (s : Process β n) (t : Tick) : Option (Process β n × Exit) :=
  if t.lockHeld then some ({ s with missedSamples := s.missedSamples + 1 }, .missed)
  else if s.profiler.blocks t then some (s, .addressBlocked)
  else
    let bt := s.profiler.collect f t.trace []
    match cStr (writeThreadName t.currentThread t.getname.1 t.getname.2.toList) with
    | none => none
    | some name =>
      if s.profiler.isThreadBlocklisted name then some (s, .threadBlocked)
      else match UnresolvedFrames.new bt name t.currentThread t.timestamp with
        | none => none
        | some frames =>
          some ({ s with profiler := s.profiler.sample hash frames t.writes }, .sampled frames)

/-- **Every invocation of the handler that runs to completion takes one of four exits.** -/
theorem perfSignalHandler_cases {s s' : Process β n} {t : Tick} {exit : Exit}
    (h : s.perfSignalHandler f hash t = some (s', exit)) :
    (exit = .missed ∧ s' = { s with missedSamples := s.missedSamples + 1 }) ∨
    (exit = .addressBlocked ∧ s' = s) ∨ (exit = .threadBlocked ∧ s' = s) ∨
    ∃ frames, exit = .sampled frames ∧
      s' = { s with profiler := s.profiler.sample hash frames t.writes } := by
  unfold perfSignalHandler at h
  split at h
  · cases h; exact Or.inl ⟨rfl, rfl⟩
  split at h
  · cases h; exact Or.inr (Or.inl ⟨rfl, rfl⟩)
  simp only at h
  split at h
  · cases h
  split at h
  · cases h; exact Or.inr (Or.inr (Or.inl ⟨rfl, rfl⟩))
  split at h
  · cases h
  · next frames _ => cases h; exact Or.inr (Or.inr (Or.inr ⟨frames, rfl, rfl⟩))

/-- An invocation of the handler touches neither the session nor the dispositions. -/
theorem perfSignalHandler_frame {s s' : Process β n} {t : Tick} {exit : Exit}
    (h : s.perfSignalHandler f hash t = some (s', exit)) :
    s'.profiler.running = s.profiler.running ∧
      s'.profiler.oldSigaction = s.profiler.oldSigaction ∧
      s'.profiler.clockType = s.profiler.clockType ∧ s'.action = s.action := by
  obtain ⟨-, rfl⟩ | ⟨-, rfl⟩ | ⟨-, rfl⟩ | ⟨frames, -, rfl⟩ := perfSignalHandler_cases f hash h <;>
    exact ⟨rfl, rfl, rfl, rfl⟩

end Process

end Rpprof
