import Rpprof.PerfMap.Coverage
import Rpprof.Profiler.Lossy

/-!
# What an installed map says

Refreshes overtake each other, skip a file that changed within a second, and the initializer
truncates what it finds.  So a map that is installed may be old, and lines may be missing from it.
But whatever it says was written: it is the map of consecutive lines that the compiler wrote, and a
name that is shown for an address is that of a line with the address in it.

A refresh reads in pieces until it meets the end of the file.  While the file only grows that is
as good as reading all of it when the end is met, so it is one step here; a truncation under an
open reader, which could cut a line in two, is left out.

Once a map is installed there is always one, and the file is not truncated any more.

## Main definitions

* `Refresh.Drawn` — the file and the maps are made of consecutive lines that were written.
* `Refresh.TruncatesUnread` — nothing is truncated under an open reader.
* `Refresh.Answers` — a resolver whose answers were given at any moments of the run.

## Main results

* `Refresh.Drawn.step` — every step keeps that.
* `Refresh.named_of_answers` — **a name that is shown was written for its address**.
* `Refresh.installed_of_reach` — **an installed map is only replaced, and the file only grows**.
-/

namespace Rpprof

/-! ### Looking a name up -/

namespace JitLine

/-- **What is found was written**, for a range with the address in it. -/
theorem of_find {lines : List JitLine} {addr : ℕ} {name : List Char}
    (h : (toMap lines).find addr = some name) :
    ∃ line ∈ lines, line.1.Contains addr ∧ name = line.1.joined := by
  rw [toMap, PerfMap.find_ranges] at h
  obtain ⟨line, hline, rfl⟩ := Option.map_eq_some_iff.mp h
  rw [PerfLine.first] at hline
  have hcontains := List.find?_some hline
  obtain ⟨jit, hjit, rfl⟩ := List.mem_map.mp (List.mem_of_find?_eq_some hline)
  exact ⟨jit, hjit, of_decide_eq_true hcontains, rfl⟩

end JitLine

namespace Frames

/-- The frames of a resolved backtrace are resolved frames of it. -/
theorem mem_resolveAll {r : Resolver} {symbols : List Symbol} (frames : List Frame) :
    symbols ∈ resolveAll r frames → ∃ frame ∈ frames, symbols = resolve r frame := by
  fun_induction resolveAll r frames with
  | case1 => exact fun h => absurd h List.not_mem_nil
  | case2 => exact fun h => absurd h List.not_mem_nil
  | case3 frame hhandler next rest ih =>
    intro h
    obtain ⟨frame', hframe', heq⟩ := ih h
    exact ⟨frame', List.mem_cons_of_mem _ (List.mem_cons_of_mem _ hframe'), heq⟩
  | case4 frame rest hhandler hempty ih =>
    intro h
    obtain ⟨frame', hframe', heq⟩ := ih h
    exact ⟨frame', List.mem_cons_of_mem _ hframe', heq⟩
  | case5 frame rest hhandler hempty ih =>
    intro h
    rcases List.mem_cons.mp h with rfl | h
    · exact ⟨frame, List.mem_cons_self, rfl⟩
    · obtain ⟨frame', hframe', heq⟩ := ih h
      exact ⟨frame', List.mem_cons_of_mem _ hframe', heq⟩

end Frames

namespace PerfMap

/-- The name of a symbol is the text that was found. -/
theorem sysName_symbol (name : List Char) : (symbol name).sysName = String.ofList name :=
  fromUtf8Lossy_encode name

end PerfMap

/-- The thread has opened the file, and is not done with it. -/
def InitPc.hasOpen : InitPc → Bool
  | readMtime | compare _ | storeMtime _ | parse => true
  | openFile | ret _ => false

def RefreshTask.hasOpen : RefreshTask → Bool
  | .running pc _ => pc.hasOpen
  | .done => false

namespace Refresh

variable {s s' : Refresh}

/-! ### The maps -/

/-- The map is installed, or a thread is about to install it. -/
def Holds (s : Refresh) (map : PerfMap) : Prop :=
  s.resolver = .ready (some map) ∨ s.resolver = .initializing (.ret (some map)) ∨
    ∃ fresh, .running (.ret (some map)) fresh ∈ s.tasks

/-- The file has the last of the lines written, and each map consecutive ones. -/
structure Drawn (s : Refresh) : Prop where
  file : s.shared.lines <:+ s.written
  maps : ∀ map, s.Holds map → ∃ lines, lines <:+: s.written ∧ map = JitLine.toMap lines

namespace Drawn

theorem init : Drawn init where
  file := List.suffix_rfl
  maps := by
    rintro map (h | h | ⟨fresh, h⟩)
    · cases h
    · cases h
    · cases h

/-- A step that makes no new map. -/
theorem congr (h : s.Drawn) (hlines : s'.shared.lines = s.shared.lines)
    (hwritten : s'.written = s.written) (hmaps : ∀ map, s'.Holds map → s.Holds map) :
    s'.Drawn where
  file := by rw [hlines, hwritten]; exact h.file
  maps := by
    rw [hwritten]
    exact fun map hmap => h.maps map (hmaps map hmap)

/-- A step that makes at most the map of the file. -/
theorem read (h : s.Drawn) (hlines : s'.shared.lines = s.shared.lines)
    (hwritten : s'.written = s.written)
    (hmaps : ∀ map, s'.Holds map → s.Holds map ∨ map = JitLine.toMap s.shared.lines) :
    s'.Drawn where
  file := by rw [hlines, hwritten]; exact h.file
  maps := by
    intro map hmap
    rw [hwritten]
    rcases hmaps map hmap with hold | rfl
    · exact h.maps map hold
    · exact ⟨_, h.file.isInfix, rfl⟩

/-- A refresh goes on. -/
theorem refresh (h : s.Drawn) {i : ℕ} (hstep : s.step (.refresh i) = some s') : s'.Drawn := by
  obtain ⟨task, htask, hstep⟩ := Option.bind_eq_some_iff.mp hstep
  have hmem := List.mem_of_getElem? htask
  rcases stepTask_cases hstep with ⟨fresh, rfl, rfl⟩ | ⟨map, map', fresh, rfl, hready, rfl⟩ |
    ⟨pc, fresh, w, pc', rfl, hinit, rfl⟩
  · refine h.congr rfl rfl ?_
    rintro map (hres | hres | ⟨fresh', hmap⟩)
    · exact Or.inl hres
    · exact Or.inr (Or.inl hres)
    · rcases List.mem_or_eq_of_mem_set hmap with hold | hnew
      · exact Or.inr (Or.inr ⟨fresh', hold⟩)
      · cases hnew
  · refine h.congr rfl rfl ?_
    rintro map₁ (hres | hres | ⟨fresh', hmap⟩)
    · cases hres
      exact Or.inr (Or.inr ⟨fresh, hmem⟩)
    · cases hres
    · rcases List.mem_or_eq_of_mem_set hmap with hold | hnew
      · exact Or.inr (Or.inr ⟨fresh', hold⟩)
      · cases hnew
  · refine h.read (PerfShared.lines_initResolver hinit) rfl ?_
    rintro map (hres | hres | ⟨fresh', hmap⟩)
    · exact Or.inl (Or.inl hres)
    · exact Or.inl (Or.inr (Or.inl hres))
    · rcases List.mem_or_eq_of_mem_set hmap with hold | hnew
      · exact Or.inl (Or.inr (Or.inr ⟨fresh', hold⟩))
      · cases hnew
        exact Or.inr (PerfShared.map_initResolver hinit)

/-- The initializer goes on. -/
theorem initial (h : s.Drawn) (hstep : s.step .initial = some s') : s'.Drawn := by
  cases hres : s.resolver with
  | initializing pc =>
    cases pc with
    | ret map =>
      rw [step, hres] at hstep
      cases hstep
      refine h.congr rfl rfl ?_
      rintro map' (hready | hinit | htask)
      · cases hready
        exact Or.inr (Or.inl hres)
      · cases hinit
      · exact Or.inr (Or.inr htask)
    | openFile | readMtime | compare t | storeMtime t | parse =>
      rw [step, hres] at hstep
      obtain ⟨⟨w, pc'⟩, hinit, rfl⟩ := Option.map_eq_some_iff.mp hstep
      refine h.read (PerfShared.lines_initResolver hinit) rfl ?_
      rintro map (hready | hmap | htask)
      · cases hready
      · cases hmap
        exact Or.inr (PerfShared.map_initResolver hinit)
      · exact Or.inl (Or.inr (Or.inr htask))
  | uninit | touching | ready map =>
    rw [step, hres] at hstep
    cases hstep

/-- A line is appended to the file, and written. -/
theorem append (h : s.Drawn) {line : JitLine} {t : ℕ}
    (hstep : s.step (.append line t) = some s') : s'.Drawn := by
  rw [step, Option.ite_none_right_eq_some, Option.some.injEq] at hstep
  obtain ⟨-, rfl⟩ := hstep
  refine ⟨?_, fun map hmap => ?_⟩
  · obtain ⟨before, hbefore⟩ := h.file
    refine ⟨before, ?_⟩
    show before ++ (s.shared.lines ++ [line]) = s.written ++ [line]
    rw [← List.append_assoc, hbefore]
  · have hold : s.Holds map := by
      rcases hmap with hres | hres | ⟨fresh, hmem⟩
      · exact Or.inl hres
      · exact Or.inr (Or.inl hres)
      · obtain ⟨task, htask, heq⟩ := List.mem_map.mp hmem
        cases task with
        | running pc fresh' =>
          cases heq
          exact Or.inr (Or.inr ⟨fresh', htask⟩)
        | done => cases heq
    obtain ⟨lines, hlines, rfl⟩ := h.maps map hold
    exact ⟨lines, hlines.trans (List.prefix_append _ _).isInfix, rfl⟩

/-- The file is emptied, or it is not. -/
theorem touch (h : s.Drawn) {t : Option ℕ} (hstep : s.step (.touch t) = some s') : s'.Drawn := by
  simp only [Refresh.step] at hstep
  split at hstep
  · next hres =>
    have hmaps : ∀ u : Refresh, u.resolver = .initializing .openFile → u.tasks = s.tasks →
        ∀ map, u.Holds map → s.Holds map := by
      rintro u hres' htasks map (hready | hinit | htask)
      · rw [hres'] at hready
        cases hready
      · rw [hres'] at hinit
        cases hinit
      · rw [htasks] at htask
        exact Or.inr (Or.inr htask)
    cases t with
    | none =>
      cases hstep
      exact h.congr rfl rfl (hmaps _ rfl rfl)
    | some t =>
      simp only [Option.ite_none_right_eq_some, Option.some.injEq] at hstep
      obtain ⟨-, rfl⟩ := hstep
      refine ⟨List.nil_suffix, fun map hmap => h.maps map ?_⟩
      exact hmaps { s with
        shared := { s.shared with file := some ⟨[], t⟩ }
        resolver := .initializing .openFile } rfl rfl map hmap
  · cases hstep

/-- **Every step keeps it.** -/
theorem step (h : s.Drawn) {e : RefreshEvent} (hstep : s.step e = some s') : s'.Drawn := by
  cases e with
  | append line t => exact h.append hstep
  | getResolver =>
    cases hstep
    refine h.congr rfl rfl ?_
    rintro map (hres | hres | ⟨fresh, hmem⟩)
    · exact Or.inl hres
    · exact Or.inr (Or.inl hres)
    · rcases List.mem_append.mp hmem with hold | hnew
      · exact Or.inr (Or.inr ⟨fresh, hold⟩)
      · cases List.mem_singleton.mp hnew
  | force =>
    rw [Refresh.step, Option.ite_none_right_eq_some, Option.some.injEq] at hstep
    obtain ⟨-, rfl⟩ := hstep
    refine h.congr rfl rfl ?_
    rintro map (hres | hres | htask)
    · cases hres
    · cases hres
    · exact Or.inr (Or.inr htask)
  | touch t => exact h.touch hstep
  | initial => exact h.initial hstep
  | refresh i => exact h.refresh hstep

end Drawn

/-! ### What is shown -/

/-- What a refresh or the initializer does leaves what was written, and the file's lines. -/
theorem refresh_frame {i : ℕ} (hstep : s.step (.refresh i) = some s') :
    s'.written = s.written ∧ s'.shared.lines = s.shared.lines ∧
      (s'.resolver = s.resolver ∨ ∃ map, s'.resolver = .ready (some map)) := by
  obtain ⟨task, -, hstep⟩ := Option.bind_eq_some_iff.mp hstep
  rcases stepTask_cases hstep with ⟨fresh, -, rfl⟩ | ⟨map, map', fresh, -, -, rfl⟩ |
    ⟨pc, fresh, w, pc', -, hinit, rfl⟩
  · exact ⟨rfl, rfl, Or.inl rfl⟩
  · exact ⟨rfl, rfl, Or.inr ⟨map, rfl⟩⟩
  · exact ⟨rfl, PerfShared.lines_initResolver hinit, Or.inl rfl⟩

/-- No step unwrites a line. -/
theorem written_step {e : RefreshEvent} (hstep : s.step e = some s') :
    s.written <+: s'.written := by
  cases e with
  | append line t =>
    rw [step, Option.ite_none_right_eq_some, Option.some.injEq] at hstep
    obtain ⟨-, rfl⟩ := hstep
    exact List.prefix_append _ _
  | getResolver =>
    cases hstep
    exact List.prefix_rfl
  | force =>
    rw [step, Option.ite_none_right_eq_some, Option.some.injEq] at hstep
    obtain ⟨-, rfl⟩ := hstep
    exact List.prefix_rfl
  | touch t =>
    simp only [step] at hstep
    split at hstep
    · cases t with
      | none =>
        cases hstep
        exact List.prefix_rfl
      | some t =>
        simp only [Option.ite_none_right_eq_some, Option.some.injEq] at hstep
        obtain ⟨-, rfl⟩ := hstep
        exact List.prefix_rfl
    · cases hstep
  | initial =>
    simp only [step] at hstep
    split at hstep
    · cases hstep
      exact List.prefix_rfl
    · obtain ⟨r, -, rfl⟩ := Option.map_eq_some_iff.mp hstep
      exact List.prefix_rfl
    · cases hstep
  | refresh i => rw [(refresh_frame hstep).1]

theorem written_of_reach {C : Refresh → RefreshEvent → Prop} (hreach : Machine.Reach step C s s') :
    s.written <+: s'.written :=
  hreach.invariant (I := fun t => s.written <+: t.written) List.prefix_rfl
    fun _ _ _ h _ hstep => h.trans (written_step hstep)

/-- The file is not truncated while a refresh has it open. -/
def TruncatesUnread (s : Refresh) : RefreshEvent → Prop
  | .touch (some _) => ∀ task ∈ s.tasks, task.hasOpen = false
  | _ => True

instance (s : Refresh) : ∀ e, Decidable (s.TruncatesUnread e)
  | .touch (some _) => inferInstanceAs (Decidable (∀ task ∈ s.tasks, task.hasOpen = false))
  | .touch none | .append _ _ | .getResolver | .force | .initial | .refresh _ =>
    inferInstanceAs (Decidable True)

/-- The answers of `resolve_in_perfmap` while a report is made: each was given at some moment of the
run, by the map that was installed then. -/
def Answers (s : Refresh) (r : Resolver) : Prop :=
  ∀ ip symbol, r.perfmap ip = some symbol → ∃ t map name,
    Machine.Reach step TruncatesUnread init t ∧ Machine.Reach step TruncatesUnread t s ∧
    t.resolver = .ready (some map) ∧ map.find ip = some name ∧ symbol = PerfMap.symbol name

/-- What the map that is installed says, says a report made now. -/
theorem answers_of_ready {map : PerfMap} {r : Resolver}
    (hreach : Machine.Reach step TruncatesUnread init s)
    (hready : s.resolver = .ready (some map))
    (hperf : ∀ ip, r.perfmap ip = (map.find ip).map PerfMap.symbol) : s.Answers r := by
  intro ip symbol hsymbol
  rw [hperf] at hsymbol
  obtain ⟨name, hname, rfl⟩ := Option.map_eq_some_iff.mp hsymbol
  exact ⟨s, map, name, hreach, Machine.Reach.refl, hready, hname, rfl⟩

/-- **A name that is shown was written for its address.**  Whenever a report is made, whatever
refreshes are under way and whichever map answers for a frame: each frame that is shown has the
symbols of `resolve_symbol`, or one symbol whose name is that of a line which the compiler has
written by then, and which has the frame's address in it. -/
theorem named_of_answers {r : Resolver} (hanswers : s.Answers r) (k : UnresolvedFrames) :
    ∀ symbols ∈ (Frames.ofUnresolved r k).frames, ∃ frame ∈ k.frames,
      symbols = r.symbols frame ∨ ∃ line ∈ s.written, line.1.Contains frame.ip ∧
        symbols.map Symbol.sysName = [String.ofList line.1.joined] := by
  intro symbols hsymbols
  obtain ⟨frame, hframe, rfl⟩ := Frames.mem_resolveAll k.frames hsymbols
  refine ⟨frame, hframe, ?_⟩
  cases hperf : r.perfmap frame.ip with
  | none =>
    rw [Frames.resolve, hperf]
    exact Or.inl rfl
  | some symbol =>
    obtain ⟨t, map, name, hinit, hlater, hready, hfind, rfl⟩ := hanswers _ _ hperf
    have hdrawn : t.Drawn := hinit.invariant Drawn.init fun _ _ _ h _ hstep => h.step hstep
    obtain ⟨lines, hlines, rfl⟩ := hdrawn.maps map (Or.inl hready)
    obtain ⟨line, hline, hcontains, rfl⟩ := JitLine.of_find hfind
    refine Or.inr ⟨line, (written_of_reach hlater).subset (hlines.subset hline), hcontains, ?_⟩
    rw [Frames.resolve, hperf, List.map_singleton, PerfMap.sysName_symbol]

/-- After the first call a line is appended, and the next refresh reads it. -/
def readAgain : List RefreshEvent :=
  firstCall ++ [.append ⟨lineF, lineF_fits⟩ (6 * 10 ^ 9), .getResolver] ++ refreshes 1 6

/-- The map of the one line. -/
def mapF : PerfMap := JitLine.toMap [⟨lineF, lineF_fits⟩]

/-- Only the map answers. -/
def resolverF : Resolver := ⟨fun ip => (mapF.find ip).map PerfMap.symbol, fun _ => [], id⟩

/-- A backtrace of two frames, the second outside of the range. -/
def backtraceF : UnresolvedFrames := { UnresolvedFrames.default 0 with
  frames := [⟨0x48, 0x48⟩, ⟨0x60, 0x60⟩] }

theorem named_of_answers_readAgain :
    ∃ s, Machine.run step init readAgain = some s ∧ s.Answers resolverF ∧
      (Frames.ofUnresolved resolverF backtraceF).frames.map (List.map Symbol.sysName) = [["f"]] ∧
      ∀ symbols ∈ (Frames.ofUnresolved resolverF backtraceF).frames, ∃ frame ∈ backtraceF.frames,
        symbols = resolverF.symbols frame ∨ ∃ line ∈ s.written, line.1.Contains frame.ip ∧
          symbols.map Symbol.sysName = [String.ofList line.1.joined] := by
  have hunread : Machine.Throughout step TruncatesUnread init readAgain := by decide +kernel
  have hready : (Machine.run step init readAgain).map Refresh.resolver =
      some (.ready (some mapF)) := by
    decide +kernel
  obtain ⟨s, hs, hresolver⟩ := Option.map_eq_some_iff.mp hready
  have hanswers : s.Answers resolverF :=
    answers_of_ready (Machine.Reach.of_throughout hunread hs) hresolver fun _ => rfl
  exact ⟨s, hs, hanswers, by decide +kernel, named_of_answers hanswers backtraceF⟩

/-! ### What is kept -/

/-- **An installed map is only replaced, and the file only grows.**  Once the initializer is over it
is over for good: the file is not truncated any more, and where a map was installed there is one. -/
theorem installed_of_reach {map : Option PerfMap} (hready : s.resolver = .ready map)
    (hreach : Machine.Reachable step s s') :
    s.shared.lines <+: s'.shared.lines ∧ ∃ map', s'.resolver = .ready map' ∧
      (map.isSome = true → map'.isSome = true) := by
  refine hreach.invariant (I := fun t => s.shared.lines <+: t.shared.lines ∧ ∃ map',
    t.resolver = .ready map' ∧ (map.isSome = true → map'.isSome = true))
    ⟨List.prefix_rfl, map, hready, id⟩ ?_
  rintro t e t' ⟨hlines, map', ht, hsome⟩ - hstep
  cases e with
  | append line time =>
    rw [step, Option.ite_none_right_eq_some, Option.some.injEq] at hstep
    obtain ⟨-, rfl⟩ := hstep
    exact ⟨hlines.trans (List.prefix_append _ _), map', ht, hsome⟩
  | getResolver =>
    cases hstep
    exact ⟨hlines, map', ht, hsome⟩
  | force =>
    rw [step, Option.ite_none_right_eq_some, ht] at hstep
    cases hstep.1.1
  | touch time =>
    simp only [step, ht] at hstep
    cases hstep
  | initial =>
    simp only [step, ht] at hstep
    cases hstep
  | refresh i =>
    obtain ⟨-, hsame, hresolver⟩ := refresh_frame hstep
    rw [hsame]
    refine ⟨hlines, ?_⟩
    rcases hresolver with hold | ⟨map'', hnew⟩
    · exact ⟨map', hold.trans ht, hsome⟩
    · exact ⟨some map'', hnew, fun _ => rfl⟩

/-- The first call installs the map of the empty file; the next refresh replaces it. -/
theorem installed_of_reach_readAgain :
    ∃ s s', Machine.run step init firstCall = some s ∧ s.shared.lines.length = 0 ∧
      Machine.run step init readAgain = some s' ∧ s'.shared.lines.length = 1 ∧
      s.shared.lines <+: s'.shared.lines ∧ ∃ map, s'.resolver = .ready map ∧ map.isSome = true := by
  have hfirst : (Machine.run step init firstCall).map
      (fun s => (s.resolver, s.shared.lines.length)) =
        some (.ready (some (JitLine.toMap [])), 0) := by
    decide +kernel
  have hlast : (Machine.run step init readAgain).map (fun s => s.shared.lines.length) = some 1 := by
    decide +kernel
  obtain ⟨s, hs, hvalues⟩ := Option.map_eq_some_iff.mp hfirst
  obtain ⟨hready, hempty⟩ := Prod.mk.inj hvalues
  obtain ⟨s', hs', hone⟩ := Option.map_eq_some_iff.mp hlast
  have hrest : Machine.run step s ([.append ⟨lineF, lineF_fits⟩ (6 * 10 ^ 9), .getResolver] ++
      refreshes 1 6) = some s' := by
    rw [readAgain, List.append_assoc, Machine.run_append, hs, Option.bind_some] at hs'
    exact hs'
  obtain ⟨hlines, map, hmap, hsome⟩ := installed_of_reach hready (Machine.reachable_of_run hrest)
  exact ⟨s, s', hs, hempty, hs', hone, hlines, map, hmap, hsome rfl⟩

end Refresh

end Rpprof
