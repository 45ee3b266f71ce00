import Rpprof.Profiler.Session
import Mathlib.Order.Interval.Set.Basic

/-!
# The library blocklist

A builder can be told the names of libraries whose code must not be unwound.  It looks for
them among the libraries that are loaded and keeps the bounds of their segments, and the
handler drops a tick whose interrupted address lies strictly between two bounds.  The first
is that of the first byte of the segment.

## Main definitions

* `SharedLibrary`, `ProfilerGuardBuilder.blocklist` — the code.
* `blockedCode` — the addresses of the segments of the libraries that are named.
* `Process.Filters` — what interrupts at an address is dropped if that is in this code.

## Main results

* `ProfilerGuardBuilder.blocklist_spec` — what the builder keeps.
* `Process.filters_iff` — **the addresses that are filtered**, all through the session.
-/

namespace Rpprof

/-! ### The builder -/

/-- A segment as it is mapped: its actual virtual memory address, and its length. -/
structure Segment where
  start : ℕ
  len : ℕ
deriving DecidableEq, Repr

/-- `TargetSharedLibrary`: a library that is loaded. -/
structure SharedLibrary where
  name : ByteArray
  segments : List Segment

namespace SharedLibrary

/-- A library is named in the list: its name is text, and contains a text of the list. -/
def inBlocklist (shlib : SharedLibrary) (blocklist : List String) : Bool :=
  match String.fromUTF8? shlib.name with
  | some name => blocklist.any fun blocked => decide (blocked.toList <:+: name.toList)
  | none => false

/-- The loop over the segments of a library; `none` is the panic of an overflow. -/
def pushSegments (shlib : SharedLibrary) (segments : List (ℕ × ℕ)) : Option (List (ℕ × ℕ)) :=
  shlib.segments.foldlM (fun segments seg =>
    (usizeAdd seg.start seg.len).map fun stop => segments ++ [(seg.start, stop)]) segments

/-- What the builder does with each library that is loaded. -/
def pushIfBlocked (blocklist : List String) (segments : List (ℕ × ℕ)) (shlib : SharedLibrary) :
    Option (List (ℕ × ℕ)) :=
  if shlib.inBlocklist blocklist then shlib.pushSegments segments else some segments

end SharedLibrary

/-- `ProfilerGuardBuilder::blocklist`, over the libraries that are loaded. -/
def ProfilerGuardBuilder.blocklist (b : ProfilerGuardBuilder) (loaded : List SharedLibrary)
    (blocklist : List String) : Option ProfilerGuardBuilder :=
  (loaded.foldlM (SharedLibrary.pushIfBlocked blocklist) []).map fun segments =>
    { b with blocklistSegments := segments }

/-! ### The code that is blocked -/

/-- The name of a library contains one of the names. -/
def SharedLibrary.NameContains (shlib : SharedLibrary) (names : List String) : Prop :=
  ∃ name, String.fromUTF8? shlib.name = some name ∧
    ∃ blocked ∈ names, blocked.toList <:+: name.toList

/-- A segment of a library that is named. -/
def BlockedSegment (loaded : List SharedLibrary) (names : List String) (seg : Segment) : Prop :=
  ∃ shlib ∈ loaded, shlib.NameContains names ∧ seg ∈ shlib.segments

/-- The addresses of the segments of the libraries that are named. -/
def blockedCode (loaded : List SharedLibrary) (names : List String) : Set ℕ :=
  {addr | ∃ seg, BlockedSegment loaded names seg ∧ addr ∈ Set.Ico seg.start (seg.start + seg.len)}

namespace SharedLibrary

theorem inBlocklist_iff (shlib : SharedLibrary) (names : List String) :
    shlib.inBlocklist names = true ↔ shlib.NameContains names := by
  rw [inBlocklist, NameContains]
  cases String.fromUTF8? shlib.name with
  | none => simp
  | some name => simp

/-- The bounds of the segments of a library. -/
def bounds (shlib : SharedLibrary) : List (ℕ × ℕ) :=
  shlib.segments.map fun seg => (seg.start, seg.start + seg.len)

theorem pushSegments_spec {shlib : SharedLibrary} {segments out : List (ℕ × ℕ)}
    (h : shlib.pushSegments segments = some out) : out = segments ++ shlib.bounds := by
  unfold pushSegments at h
  unfold bounds
  generalize shlib.segments = segs at h ⊢
  induction segs generalizing segments with
  | nil =>
    cases h
    rw [List.map_nil, List.append_nil]
  | cons seg segs ih =>
    rw [List.foldlM_cons, Option.bind_eq_bind, Option.bind_eq_some_iff] at h
    obtain ⟨pushed, hpushed, hrest⟩ := h
    obtain ⟨stop, hstop, rfl⟩ := Option.map_eq_some_iff.mp hpushed
    rw [eq_of_usizeAdd hstop] at hrest
    rw [ih hrest, List.map_cons, List.append_assoc, List.singleton_append]

theorem foldlM_pushIfBlocked {names : List String} {loaded : List SharedLibrary}
    {segments out : List (ℕ × ℕ)}
    (h : loaded.foldlM (pushIfBlocked names) segments = some out) :
    out = segments ++ (loaded.filter (·.inBlocklist names)).flatMap bounds := by
  induction loaded generalizing segments with
  | nil =>
    cases h
    rw [List.filter_nil, List.flatMap_nil, List.append_nil]
  | cons shlib loaded ih =>
    rw [List.foldlM_cons, Option.bind_eq_bind, Option.bind_eq_some_iff] at h
    obtain ⟨pushed, hpushed, hrest⟩ := h
    rw [pushIfBlocked] at hpushed
    split_ifs at hpushed with hblocked
    · rw [ih hrest, pushSegments_spec hpushed, List.filter_cons, if_pos hblocked,
        List.flatMap_cons, List.append_assoc]
    · cases hpushed
      rw [ih hrest, List.filter_cons, if_neg hblocked]

end SharedLibrary

/-- **What the builder keeps**: the bounds of the blocked segments. -/
theorem ProfilerGuardBuilder.blocklist_spec {b b' : ProfilerGuardBuilder}
    {loaded : List SharedLibrary} {names : List String}
    (h : b.blocklist loaded names = some b') (r : ℕ × ℕ) :
    r ∈ b'.blocklistSegments ↔
      ∃ seg, BlockedSegment loaded names seg ∧ (seg.start, seg.start + seg.len) = r := by
  obtain ⟨segments, hsegments, rfl⟩ := Option.map_eq_some_iff.mp h
  rw [SharedLibrary.foldlM_pushIfBlocked hsegments, List.nil_append, List.mem_flatMap]
  constructor
  · rintro ⟨shlib, hshlib, hr⟩
    rw [List.mem_filter, SharedLibrary.inBlocklist_iff] at hshlib
    obtain ⟨seg, hseg, rfl⟩ := List.mem_map.mp hr
    exact ⟨seg, ⟨shlib, hshlib.1, hshlib.2, hseg⟩, rfl⟩
  · rintro ⟨seg, ⟨shlib, hloaded, hname, hseg⟩, rfl⟩
    refine ⟨shlib, ?_, List.mem_map_of_mem hseg⟩
    rw [List.mem_filter, SharedLibrary.inBlocklist_iff]
    exact ⟨hloaded, hname⟩

/-- An address of the code is within a segment, or where one starts. -/
theorem mem_blockedCode {loaded : List SharedLibrary} {names : List String} {addr : ℕ} :
    addr ∈ blockedCode loaded names ↔
      (∃ seg, BlockedSegment loaded names seg ∧ addr ∈ Set.Ioo seg.start (seg.start + seg.len)) ∨
        ∃ seg, BlockedSegment loaded names seg ∧ seg.start = addr ∧ 0 < seg.len := by
  constructor
  · rintro ⟨seg, hseg, hstart, hstop⟩
    rcases hstart.eq_or_lt with heq | hlt
    · exact Or.inr ⟨seg, hseg, heq, by omega⟩
    · exact Or.inl ⟨seg, hseg, hlt, hstop⟩
  · rintro (⟨seg, hseg, hstart, hstop⟩ | ⟨seg, hseg, rfl, hlen⟩)
    · exact ⟨seg, hseg, hstart.le, hstop⟩
    · exact ⟨seg, hseg, le_refl _, Nat.lt_add_of_pos_right hlen⟩

/-! ### The handler -/

theorem Profiler.isBlocklisted_iff {β : Type*} {n : ℕ} (p : Profiler β n) (addr : ℕ) :
    p.isBlocklisted addr = true ↔ ∃ r ∈ p.blocklistSegments, addr ∈ Set.Ioo r.1 r.2 := by
  rw [isBlocklisted, List.any_eq_true]
  refine exists_congr fun r => and_congr_right fun _ => ?_
  rw [Bool.and_eq_true, decide_eq_true_eq, decide_eq_true_eq]
  rfl

section Handler

variable {β : Type*} {n : ℕ} {f : Features}

/-- The segments that the profiler drops ticks in are those of the builder. -/
theorem Process.blocklistSegments_of_build {s s' : Process β n} {b : ProfilerGuardBuilder}
    {a : Answers} {now instant : ℕ} {g : ProfilerGuard}
    (h : s.build f b a now instant = (s', some (.ok g))) :
    s'.profiler.blocklistSegments = b.blocklistSegments := by
  have hframe := start_frame (s.configure f b) b.clockType b.threadBlocklist a
  obtain ⟨s₁, hstart, rfl, -⟩ := build_spec h
  rw [hstart] at hframe
  exact hframe.2

variable [MemImage β (Entry UnresolvedFrames)] [NeZero n] {finish : List ℕ → ℕ}

/-- An event of a session leaves the segments alone. -/
theorem Session.blocklistSegments_step {s s' : Session β n} {e : SessionEvent}
    (h : s.step f finish e = some s') :
    s'.process.profiler.blocklistSegments = s.process.profiler.blocklistSegments := by
  obtain ⟨-, rfl⟩ | ⟨t, process, exit, rfl, hrun, rfl⟩ := step_cases h
  · rfl
  · rcases Process.perfSignalHandler_cases f _ hrun with
      ⟨-, rfl⟩ | ⟨-, rfl⟩ | ⟨-, rfl⟩ | ⟨frames, -, rfl⟩ <;> rfl

theorem Session.blocklistSegments_of_run {s s' : Session β n} {events : List SessionEvent}
    (h : Machine.run (Session.step f finish) s events = some s') :
    s'.process.profiler.blocklistSegments = s.process.profiler.blocklistSegments :=
  (Machine.reachable_of_run h).invariant
    (I := fun t => t.process.profiler.blocklistSegments = s.process.profiler.blocklistSegments)
    rfl fun _ _ _ hkept _ hstep => (Session.blocklistSegments_step hstep).trans hkept

namespace Process

/-- The handler drops a tick for its address if this is blocked. -/
theorem perfSignalHandler_eq_addressBlocked_iff (hash : UnresolvedFrames → ℕ) (s : Process β n)
    {t : Tick} (hheld : t.lockHeld = false) :
    s.perfSignalHandler f hash t = some (s, .addressBlocked) ↔ s.profiler.blocks t = true := by
  unfold perfSignalHandler
  rw [hheld]
  simp only [Bool.false_eq_true, if_false]
  split_ifs with hblocks
  · exact iff_of_true rfl hblocks
  · refine iff_of_false (fun h => ?_) hblocks
    -- none of the later exits is this one
    split at h
    · cases h
    · split_ifs at h
      · cases h
      · split at h
        · cases h
        · cases (Prod.mk.inj (Option.some.inj h)).2

/-- The handler drops what interrupts at an address for it if this is in the code that is
blocked. -/
def Filters (f : Features) (finish : List ℕ → ℕ) (s : Process β n) (loaded : List SharedLibrary)
    (names : List String) (addr : ℕ) : Prop :=
  ∀ t : Tick, t.lockHeld = false → t.ucontext = some addr →
    (s.perfSignalHandler f (UnresolvedFrames.hash finish) t = some (s, .addressBlocked) ↔
      addr ∈ blockedCode loaded names)

/-- All through the session of a guard, the handler drops what interrupts within a blocked
segment. -/
theorem isBlocklisted_of_run {b b' : ProfilerGuardBuilder} {loaded : List SharedLibrary}
    {names : List String} (hblocklist : b.blocklist loaded names = some b')
    {s₀ s₁ : Process β n} {a : Answers} {now instant : ℕ} {g : ProfilerGuard}
    (hbuild : s₀.build f b' a now instant = (s₁, some (.ok g))) {events : List SessionEvent}
    {s : Session β n} (hrun : Machine.run (Session.step f finish) ⟨s₁, []⟩ events = some s)
    (addr : ℕ) :
    s.process.profiler.isBlocklisted addr = true ↔ ∃ seg, BlockedSegment loaded names seg ∧
      addr ∈ Set.Ioo seg.start (seg.start + seg.len) := by
  have hsegments : s.process.profiler.blocklistSegments = b'.blocklistSegments :=
    (Session.blocklistSegments_of_run hrun).trans (blocklistSegments_of_build hbuild)
  rw [Profiler.isBlocklisted_iff, hsegments]
  constructor
  · rintro ⟨r, hr, hinside⟩
    obtain ⟨seg, hseg, rfl⟩ := (ProfilerGuardBuilder.blocklist_spec hblocklist r).mp hr
    exact ⟨seg, hseg, hinside⟩
  · rintro ⟨seg, hseg, hinside⟩
    exact ⟨_, (ProfilerGuardBuilder.blocklist_spec hblocklist _).mpr ⟨seg, hseg, rfl⟩, hinside⟩

/-- **An address is filtered unless it is where a blocked segment starts that is not empty**;
there it is filtered if it lies within another. -/
theorem filters_iff {b b' : ProfilerGuardBuilder} {loaded : List SharedLibrary}
    {names : List String} (hblocklist : b.blocklist loaded names = some b')
    {s₀ s₁ : Process β n} {a : Answers} {now instant : ℕ} {g : ProfilerGuard}
    (hbuild : s₀.build f b' a now instant = (s₁, some (.ok g))) {events : List SessionEvent}
    {s : Session β n} (hrun : Machine.run (Session.step f finish) ⟨s₁, []⟩ events = some s)
    (addr : ℕ) :
    s.process.Filters f finish loaded names addr ↔
      (¬ ∃ seg, BlockedSegment loaded names seg ∧ seg.start = addr ∧ 0 < seg.len) ∨
        ∃ seg, BlockedSegment loaded names seg ∧
          addr ∈ Set.Ioo seg.start (seg.start + seg.len) := by
  have hdrops : s.process.Filters f finish loaded names addr ↔
      (s.process.profiler.isBlocklisted addr = true ↔ addr ∈ blockedCode loaded names) := by
    constructor
    · intro h
      rw [← h (Session.tickAt false addr 97) rfl rfl,
        perfSignalHandler_eq_addressBlocked_iff _ _ rfl]
      rfl
    · intro h t hheld haddr
      rw [perfSignalHandler_eq_addressBlocked_iff _ _ hheld, Profiler.blocks, haddr]
      exact h
  rw [hdrops, isBlocklisted_of_run hblocklist hbuild hrun, mem_blockedCode, iff_self_or,
    imp_iff_not_or]

/-- A program. -/
def app : SharedLibrary := ⟨"app".toUTF8, [⟨100, 200⟩]⟩

/-- A library, with a segment that is empty. -/
def libc : SharedLibrary := ⟨"libc.so.6".toUTF8, [⟨4096, 4096⟩, ⟨16384, 0⟩]⟩

/-- What a builder keeps of the library. -/
def blocksLibc : ProfilerGuardBuilder where
  frequency := 99
  clockType := .cpu
  threadBlocklist := []
  onStack := false
  blocklistSegments := [(4096, 8192), (16384, 16384)]

theorem blocklist_libc :
    (default : ProfilerGuardBuilder).blocklist [app, libc] ["libc"] = some blocksLibc := by
  have happ : app.inBlocklist ["libc"] = false := by
    rw [app, SharedLibrary.inBlocklist, fromUTF8?_toUTF8]
    decide
  have hlibc : libc.inBlocklist ["libc"] = true := by
    rw [libc, SharedLibrary.inBlocklist, fromUTF8?_toUTF8]
    decide
  simp only [ProfilerGuardBuilder.blocklist, SharedLibrary.pushIfBlocked, List.foldlM_cons, happ,
    hlibc]
  rfl

/-- The start of the guard, from a process in which nothing runs. -/
theorem build_blocksLibc :
    letI : MemImage (Entry UnresolvedFrames) (Entry UnresolvedFrames) := MemImage.cell _
    Session.idleProcess.build ⟨false, 128⟩ blocksLibc Answers.ok 0 0 =
      ((Session.idleProcess.build ⟨false, 128⟩ blocksLibc Answers.ok 0 0).1,
        some (.ok ⟨some ⟨99, .cpu, 0, 0⟩⟩)) :=
  rfl

theorem blockedSegment_libc : BlockedSegment [app, libc] ["libc"] ⟨4096, 4096⟩ := by
  refine ⟨_, List.mem_cons_of_mem _ List.mem_cons_self, ?_, List.mem_cons_self⟩
  exact ⟨_, fromUTF8?_toUTF8 "libc.so.6", "libc", List.mem_singleton_self _, by decide⟩

/-- In the middle of the library, after a tick there. -/
theorem filters_iff_middle :
    letI : MemImage (Entry UnresolvedFrames) (Entry UnresolvedFrames) := MemImage.cell _
    (Session.idleProcess.build ⟨false, 128⟩ blocksLibc Answers.ok 0 0).1.Filters ⟨false, 128⟩
        List.sum [app, libc] ["libc"] 5000 ∧ 5000 ∈ blockedCode [app, libc] ["libc"] := by
  let _ : MemImage (Entry UnresolvedFrames) (Entry UnresolvedFrames) := MemImage.cell _
  have hrun : Machine.run (Session.step ⟨false, 128⟩ List.sum)
      ⟨(Session.idleProcess.build ⟨false, 128⟩ blocksLibc Answers.ok 0 0).1, []⟩
      [.tick (Session.tickAt false 5000 97)] =
        some ⟨(Session.idleProcess.build ⟨false, 128⟩ blocksLibc Answers.ok 0 0).1,
          [.addressBlocked]⟩ := rfl
  exact ⟨(filters_iff blocklist_libc build_blocksLibc hrun 5000).mpr
      (Or.inr ⟨_, blockedSegment_libc, by decide, by decide⟩),
    ⟨_, blockedSegment_libc, by decide, by decide⟩⟩

/-- A tick at the first byte of the library is not dropped. -/
theorem first_not_filters :
    letI : MemImage (Entry UnresolvedFrames) (Entry UnresolvedFrames) := MemImage.cell _
    ∃ b' s₁ g, (default : ProfilerGuardBuilder).blocklist [app, libc] ["libc"] = some b' ∧
      Session.idleProcess.build ⟨false, 128⟩ b' Answers.ok 0 0 = (s₁, some (.ok g)) ∧
      ¬ s₁.Filters ⟨false, 128⟩ List.sum [app, libc] ["libc"] 4096 := by
  let _ : MemImage (Entry UnresolvedFrames) (Entry UnresolvedFrames) := MemImage.cell _
  refine ⟨_, _, _, blocklist_libc, build_blocksLibc, fun h => ?_⟩
  have hmem : 4096 ∈ blockedCode [app, libc] ["libc"] :=
    ⟨_, blockedSegment_libc, le_refl _, by decide⟩
  have hdrop := (h (Session.tickAt false 4096 97) rfl rfl).mpr hmem
  rw [perfSignalHandler_eq_addressBlocked_iff _ _ rfl] at hdrop
  exact absurd hdrop (by decide)

end Process

end Handler

end Rpprof
