import Rpprof.Lib.Machine
import Rpprof.PerfMap.Parse

/-!
# Refreshing the perf map

The map in use is replaced in the background: every call of `get_resolver` starts a thread that
reads the file again, unless its modification time, in whole seconds, is the one that was
remembered when the file was last read.  The first map is made by the initializer of a lazy
static, which opens the file for truncation before it reads it.  Meanwhile the compiler appends
lines.

Every action is one step of one of them, so a run is any interleaving.  Modification times are
nanoseconds since the epoch.

## Main definitions

* `JitLine` — the lines the compiler writes.
* `PerfShared.initResolver` — the steps of `init_resolver`.
* `Refresh.step` — appends, calls, the initializer and the refreshes.
* `Refresh.Settled`, `Refresh.Found` — a refresh begun after the last append is over and none is
  under way; every line written is found.
* `Refresh.Careful` — the steps that lose nothing.

## Main results

* `JitLine.new_render` — what the compiler writes is read.
* `PerfShared.initResolver_cases`, `Refresh.stepTask_cases` — what a step does.
-/

namespace Rpprof

/-- A line the compiler may write: the end of its range is a `usize`, and its name has no line
feed in it. -/
abbrev JitLine : Type := { line : PerfLine // line.Fits ∧ '\n' ∉ line.name }

namespace JitLine

/-- The bytes of lines, each with its line feed. -/
def render (lines : List JitLine) : List UInt8 :=
  List.closeLines 0x0a ((lines.map Subtype.val).map PerfLine.bytes)

/-- The map with a range for each line. -/
def toMap (lines : List JitLine) : PerfMap := ⟨(lines.map Subtype.val).map PerfLine.range⟩

/-- **What is written is read.** -/
theorem new_render (lines : List JitLine) :
    PerfMap.new (render lines) = some (some (toMap lines)) := by
  have hlines : PerfMap.HasLines (render lines) (lines.map Subtype.val) := by
    refine PerfMap.hasLines_closeLines fun line hline => ?_
    obtain ⟨jit, -, rfl⟩ := List.mem_map.mp hline
    exact jit.2.2
  rw [PerfMap.new_eq hlines, if_pos, toMap]
  intro line hline
  obtain ⟨jit, -, rfl⟩ := List.mem_map.mp hline
  exact jit.2.1

@[simp] theorem length_toMap (lines : List JitLine) :
    (toMap lines).ranges.length = lines.length := by
  rw [toMap, List.length_map, List.length_map]

end JitLine

/-! ### The code -/

/-- The file. -/
structure MapFile where
  lines : List JitLine
  /-- When it was last changed. -/
  mtime : ℕ

/-- `Duration::as_secs`. -/
def secs (t : ℕ) : ℕ := t / 10 ^ 9

/-- Where a thread is in `init_resolver`. -/
inductive InitPc
  /-- At `File::open`. -/
  | openFile
  /-- At `metadata().modified()`. -/
  | readMtime
  /-- At `MTIME.load`, with the time just read. -/
  | compare (mtime : ℕ)
  /-- At `MTIME.store`. -/
  | storeMtime (mtime : ℕ)
  /-- At `PerfMap::new`. -/
  | parse
  /-- It returns. -/
  | ret (map : Option PerfMap)
  deriving DecidableEq

/-- The time was found changed, and the file is not read yet. -/
def InitPc.toRead : InitPc → Bool
  | storeMtime _ | parse => true
  | _ => false

/-- The file, and `MTIME`. -/
structure PerfShared where
  file : Option MapFile
  mtime : ℕ

namespace PerfShared

/-- The lines in the file. -/
def lines (w : PerfShared) : List JitLine :=
  match w.file with
  | none => []
  | some f => f.lines

/-- The modification time; zero if there is no file. -/
def fileTime (w : PerfShared) : ℕ :=
  match w.file with
  | none => 0
  | some f => f.mtime

/-- The next step of `init_resolver`; none after its return, nor where it panics. -/
def initResolver (w : PerfShared) : InitPc → Option (PerfShared × InitPc)
  | .openFile =>
    match w.file with
    | none => some (w, .ret none)
    | some _ => some (w, .readMtime)
  | .readMtime =>
    match w.file with
    | none => some (w, .ret none)
    | some f => some (w, .compare f.mtime)
  | .compare t => some (w, if w.mtime = secs t then .ret none else .storeMtime t)
  | .storeMtime t => some ({ w with mtime := secs t }, .parse)
  -- what is read in pieces is the file as it is when its end is met, while it only grows
  | .parse => (PerfMap.new (JitLine.render w.lines)).map fun map => (w, .ret map)
  | .ret _ => none

end PerfShared

/-- The lazy static `RESOLVER`. -/
inductive LazyResolver
  /-- Not forced yet. -/
  | uninit
  /-- Its initializer is at `touch`. -/
  | touching
  /-- Its initializer is in `init_resolver`. -/
  | initializing (pc : InitPc)
  /-- The map installed. -/
  | ready (map : Option PerfMap)
  deriving DecidableEq

/-- The initializer is under way. -/
def LazyResolver.busy : LazyResolver → Bool
  | .touching | .initializing _ => true
  | .uninit | .ready _ => false

/-- A thread spawned by `get_resolver`. -/
inductive RefreshTask
  /-- In `init_resolver`; whether it began after the last append. -/
  | running (pc : InitPc) (fresh : Bool)
  /-- Over. -/
  | done
  deriving DecidableEq

/-- A refresh that has begun began before what is appended now. -/
def RefreshTask.outdate : RefreshTask → RefreshTask
  | .running pc _ => .running pc false
  | .done => .done

def LazyResolver.toRead : LazyResolver → Bool
  | .initializing pc => pc.toRead
  | _ => false

def RefreshTask.toRead : RefreshTask → Bool
  | .running pc _ => pc.toRead
  | .done => false

/-- The map installed. -/
def LazyResolver.map? : LazyResolver → Option PerfMap
  | .ready map => map
  | _ => none

/-- The map a refresh is about to store. -/
def RefreshTask.map? : RefreshTask → Option PerfMap
  | .running (.ret map) _ => map
  | _ => none

/-- A refresh is yet to read the file, or holds a map of `n` ranges or more. -/
def RefreshTask.reaches (n : ℕ) (task : RefreshTask) : Bool :=
  task.toRead || task.map?.any fun map => n ≤ map.ranges.length

/-- The state of a run. -/
structure Refresh where
  shared : PerfShared
  resolver : LazyResolver
  /-- The refreshes in the order they were spawned. -/
  tasks : List RefreshTask
  /-- All lines the compiler has written. -/
  written : List JitLine
  /-- A refresh that began after the last append is over. -/
  refreshed : Bool

/-- One step. -/
inductive RefreshEvent
  /-- The compiler appends a line; it makes the file if there is none. -/
  | append (line : JitLine) (mtime : ℕ)
  /-- `get_resolver` spawns a refresh. -/
  | getResolver
  /-- A caller, or a refresh about to store, forces the static. -/
  | force
  /-- `touch` truncates the file, or fails. -/
  | touch (mtime : Option ℕ)
  /-- The initializer goes on. -/
  | initial
  /-- A refresh goes on. -/
  | refresh (i : ℕ)

namespace Refresh

/-- Nothing has happened: there is no file, and `MTIME` is zero. -/
def init : Refresh := ⟨⟨none, 0⟩, .uninit, [], [], false⟩

/-- A refresh goes on: in `init_resolver`, or after it. -/
def stepTask (s : Refresh) (i : ℕ) : RefreshTask → Option Refresh
  | .running (.ret none) fresh =>
    some { s with tasks := s.tasks.set i .done, refreshed := s.refreshed || fresh }
  | .running (.ret (some map)) fresh =>
    match s.resolver with
    | .ready _ =>
      some { s with
        resolver := .ready (some map)
        tasks := s.tasks.set i .done
        refreshed := s.refreshed || fresh }
    -- the store waits for the initializer
    | _ => none
  | .running pc fresh =>
    (s.shared.initResolver pc).map fun r =>
      { s with
        shared := r.1
        tasks := s.tasks.set i (.running r.2 (fresh || pc = .openFile)) }
  | .done => none

/-- One step; an append or a truncation does not turn the modification time back. -/
def step (s : Refresh) : RefreshEvent → Option Refresh
  | .append line t =>
    if s.shared.fileTime ≤ t then
      some { s with
        shared := { s.shared with file := some ⟨s.shared.lines ++ [line], t⟩ }
        tasks := s.tasks.map RefreshTask.outdate
        written := s.written ++ [line]
        refreshed := false }
    else none
  | .getResolver => some { s with tasks := s.tasks ++ [.running .openFile false] }
  | .force =>
    if s.resolver = .uninit ∧ s.tasks ≠ [] then some { s with resolver := .touching } else none
  | .touch t =>
    if s.resolver = .touching then
      match t with
      -- the error is dropped
      | none => some { s with resolver := .initializing .openFile }
      | some t =>
        if s.shared.fileTime ≤ t then
          some { s with
            shared := { s.shared with file := some ⟨[], t⟩ }
            resolver := .initializing .openFile }
        else none
    else none
  | .initial =>
    match s.resolver with
    | .initializing (.ret map) => some { s with resolver := .ready map }
    | .initializing pc =>
      (s.shared.initResolver pc).map fun r =>
        { s with shared := r.1, resolver := .initializing r.2 }
    | _ => none
  | .refresh i => s.tasks[i]?.bind (s.stepTask i)

/-! ### What is to hold -/

/-- A refresh that began after the last append is over, and neither a refresh nor the initializer
is under way. -/
def Settled (s : Refresh) : Prop :=
  s.refreshed = true ∧ (∀ task ∈ s.tasks, task = .done) ∧ s.resolver.busy = false

instance (s : Refresh) : Decidable s.Settled := inferInstanceAs (Decidable (_ ∧ _))

/-- Every address of every line written is found, in the first line that has it. -/
def Found (s : Refresh) : Prop :=
  ∀ line ∈ s.written, ∀ addr, line.1.Contains addr →
    ∃ map first, s.resolver = .ready (some map) ∧
      PerfLine.first (s.written.map Subtype.val) addr = some first ∧
      map.find addr = some first.joined

/-- A thread that has found the time changed, and has not read the file yet. -/
def ToRead (s : Refresh) : Prop := s.resolver.toRead = true ∨ ∃ task ∈ s.tasks, task.toRead = true

instance (s : Refresh) : Decidable s.ToRead := inferInstanceAs (Decidable (_ ∨ _))

/-- The steps that lose nothing.  Nothing is truncated; a line is appended in another second than
the one remembered, or some thread is yet to read it; and a map takes the place of another only
if it is no shorter, or some other refresh will read the file or holds a map that is no shorter. -/
def Careful (s : Refresh) : RefreshEvent → Prop
  | .append _ t => s.shared.mtime ≠ secs t ∨ s.ToRead
  | .touch (some _) => s.shared.lines.length = 0
  | .refresh i => (s.tasks[i]?.bind RefreshTask.map?).isSome = true →
      ∀ map ∈ s.resolver.map?, ∃ task ∈ s.tasks, task.reaches map.ranges.length = true
  | _ => True

instance (s : Refresh) : ∀ e, Decidable (s.Careful e)
  | .append _ _ => inferInstanceAs (Decidable (_ ∨ _))
  | .touch (some _) => inferInstanceAs (Decidable (_ = _))
  | .refresh i => inferInstanceAs (Decidable ((s.tasks[i]?.bind RefreshTask.map?).isSome = true →
      ∀ map ∈ s.resolver.map?, ∃ task ∈ s.tasks, task.reaches map.ranges.length = true))
  | .touch none | .getResolver | .force | .initial => inferInstanceAs (Decidable True)

end Refresh

/-! ### What a step does -/

namespace PerfShared

variable {w w' : PerfShared} {pc pc' : InitPc}

/-- What a step does, said once. -/
theorem initResolver_cases (h : w.initResolver pc = some (w', pc')) :
    (pc = .openFile ∧ w' = w ∧ (w.lines = [] ∧ pc' = .ret none ∨ pc' = .readMtime)) ∨
    (pc = .readMtime ∧ w' = w ∧ (w.lines = [] ∧ pc' = .ret none ∨ pc' = .compare w.fileTime)) ∨
    (∃ t, pc = .compare t ∧ w' = w ∧
      (w.mtime = secs t ∧ pc' = .ret none ∨ pc' = .storeMtime t)) ∨
    (∃ t, pc = .storeMtime t ∧ w' = { w with mtime := secs t } ∧ pc' = .parse) ∨
    (pc = .parse ∧ w' = w ∧ pc' = .ret (some (JitLine.toMap w.lines))) := by
  cases pc with
  | openFile =>
    refine Or.inl ⟨rfl, ?_⟩
    simp only [initResolver] at h
    cases hfile : w.file with
    | none =>
      rw [hfile] at h
      cases h
      exact ⟨rfl, Or.inl ⟨by simp [lines, hfile], rfl⟩⟩
    | some f =>
      rw [hfile] at h
      cases h
      exact ⟨rfl, Or.inr rfl⟩
  | readMtime =>
    refine Or.inr (Or.inl ⟨rfl, ?_⟩)
    simp only [initResolver] at h
    cases hfile : w.file with
    | none =>
      rw [hfile] at h
      cases h
      exact ⟨rfl, Or.inl ⟨by simp [lines, hfile], rfl⟩⟩
    | some f =>
      rw [hfile] at h
      cases h
      exact ⟨rfl, Or.inr (by simp [fileTime, hfile])⟩
  | compare t =>
    refine Or.inr (Or.inr (Or.inl ⟨t, rfl, ?_⟩))
    simp only [initResolver, Option.some.injEq, Prod.mk.injEq] at h
    obtain ⟨rfl, rfl⟩ := h
    split
    · next heq => exact ⟨rfl, Or.inl ⟨heq, rfl⟩⟩
    · exact ⟨rfl, Or.inr rfl⟩
  | storeMtime t =>
    cases h
    exact Or.inr (Or.inr (Or.inr (Or.inl ⟨t, rfl, rfl, rfl⟩)))
  | parse =>
    simp only [initResolver, JitLine.new_render, Option.map_some] at h
    cases h
    exact Or.inr (Or.inr (Or.inr (Or.inr ⟨rfl, rfl, rfl⟩)))
  | ret map => cases h

/-- The file is left as it is. -/
theorem file_initResolver (h : w.initResolver pc = some (w', pc')) : w'.file = w.file := by
  rcases initResolver_cases h with ⟨-, rfl, -⟩ | ⟨-, rfl, -⟩ | ⟨t, -, rfl, -⟩ | ⟨t, -, rfl, -⟩ |
    ⟨-, rfl, -⟩ <;> rfl

theorem lines_initResolver (h : w.initResolver pc = some (w', pc')) : w'.lines = w.lines := by
  rw [lines, file_initResolver h, ← lines]

theorem fileTime_initResolver (h : w.initResolver pc = some (w', pc')) :
    w'.fileTime = w.fileTime := by
  rw [fileTime, file_initResolver h, ← fileTime]

/-- A thread that stores a time is yet to read. -/
theorem mtime_initResolver (h : w.initResolver pc = some (w', pc')) :
    w'.mtime = w.mtime ∨ pc'.toRead = true := by
  rcases initResolver_cases h with ⟨-, rfl, -⟩ | ⟨-, rfl, -⟩ | ⟨t, -, rfl, -⟩ | ⟨t, -, -, rfl⟩ |
    ⟨-, rfl, -⟩
  · exact Or.inl rfl
  · exact Or.inl rfl
  · exact Or.inl rfl
  · exact Or.inr rfl
  · exact Or.inl rfl

/-- The map it returns is that of the file. -/
theorem map_initResolver {map : PerfMap} (h : w.initResolver pc = some (w', .ret (some map))) :
    map = JitLine.toMap w.lines := by
  rcases initResolver_cases h with ⟨-, -, ⟨-, h⟩ | h⟩ | ⟨-, -, ⟨-, h⟩ | h⟩ |
    ⟨t, -, -, ⟨-, h⟩ | h⟩ | ⟨t, -, -, h⟩ | ⟨-, -, h⟩
  all_goals cases h
  rfl

end PerfShared

namespace Refresh

/-- What a step of a refresh does, said once. -/
theorem stepTask_cases {s s' : Refresh} {i : ℕ} {task : RefreshTask}
    (h : s.stepTask i task = some s') :
    (∃ fresh, task = .running (.ret none) fresh ∧
      s' = { s with tasks := s.tasks.set i .done, refreshed := s.refreshed || fresh }) ∨
    (∃ map map' fresh, task = .running (.ret (some map)) fresh ∧ s.resolver = .ready map' ∧
      s' = { s with
        resolver := .ready (some map)
        tasks := s.tasks.set i .done
        refreshed := s.refreshed || fresh }) ∨
    (∃ pc fresh w pc', task = .running pc fresh ∧ s.shared.initResolver pc = some (w, pc') ∧
      s' = { s with
        shared := w
        tasks := s.tasks.set i (.running pc' (fresh || pc = .openFile)) }) := by
  unfold stepTask at h
  split at h
  · next fresh =>
    cases h
    exact Or.inl ⟨fresh, rfl, rfl⟩
  · next map fresh =>
    split at h
    · next map' hres =>
      cases h
      exact Or.inr (Or.inl ⟨map, map', fresh, rfl, hres, rfl⟩)
    · cases h
  · next pc fresh _ _ =>
    obtain ⟨⟨w, pc'⟩, hinit, rfl⟩ := Option.map_eq_some_iff.mp h
    exact Or.inr (Or.inr ⟨pc, fresh, w, pc', rfl, hinit, rfl⟩)
  · cases h

end Refresh

end Rpprof
