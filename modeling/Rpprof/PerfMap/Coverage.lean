import Rpprof.PerfMap.Refresh

/-!
# What a refresh covers

As long as steps are careful the file only grows, and a thread that was told to read it will read
all of it and store what it read over nothing longer.  So once the second of the last append is
remembered, or a refresh that began after it is over, the lines written are covered: the map of
all of them is installed, or some thread carries it.  When no thread is under way it is installed.

Each of the three steps that are not careful loses a line.

## Main definitions

* `Refresh.Covered` — the map of all lines written is installed, or carried by a thread.
* `Refresh.Inv` — the invariant of careful runs.

## Main results

* `Refresh.Inv.store` — a store that is careful covers what was covered.
* `Refresh.Inv.step` — the invariant is kept by careful steps.
* `Refresh.found_of_reach` — **in runs of careful steps every line is found**.
* `Refresh.truncated_sameSecond_overtaken_lose` — three runs that lose one.
-/

namespace Rpprof

/-- The thread holds this map, or will read it from the file. -/
def InitPc.Carries (map : PerfMap) : InitPc → Prop
  | ret map' => map' = some map
  | pc => pc.toRead = true

theorem InitPc.carries_of_toRead {map : PerfMap} {pc : InitPc} (h : pc.toRead = true) :
    pc.Carries map := by
  cases pc with
  | ret map' => cases h
  | _ => exact h

namespace PerfShared

/-- A thread goes on carrying what is in the file. -/
theorem carries_initResolver {w w' : PerfShared} {pc pc' : InitPc}
    (h : w.initResolver pc = some (w', pc'))
    (hcarries : pc.Carries (JitLine.toMap w.lines)) : pc'.Carries (JitLine.toMap w.lines) := by
  rcases initResolver_cases h with ⟨rfl, -, -⟩ | ⟨rfl, -, -⟩ | ⟨t, rfl, -, -⟩ | ⟨t, -, -, rfl⟩ |
    ⟨-, -, rfl⟩
  · cases hcarries
  · cases hcarries
  · cases hcarries
  · rfl
  · rfl

end PerfShared

namespace Refresh

variable {s s' : Refresh}

/-! ### The lines written are covered -/

/-- The map of all lines written. -/
def whole (s : Refresh) : PerfMap := JitLine.toMap s.written

/-- The map of all lines is installed, or some thread carries it. -/
def Covered (s : Refresh) : Prop :=
  s.resolver = .ready (some s.whole) ∨
  (∃ pc, s.resolver = .initializing pc ∧ pc.Carries s.whole) ∨
  ∃ pc fresh, .running pc fresh ∈ s.tasks ∧ pc.Carries s.whole

/-- A thread that is yet to read covers whatever is written. -/
theorem covered_of_toRead (h : s.ToRead) : s.Covered := by
  rcases h with h | ⟨task, htask, h⟩
  · cases hres : s.resolver with
    | initializing pc =>
      rw [hres] at h
      exact Or.inr (Or.inl ⟨pc, hres, InitPc.carries_of_toRead h⟩)
    | uninit => rw [hres] at h; cases h
    | touching => rw [hres] at h; cases h
    | ready map => rw [hres] at h; cases h
  · cases task with
    | running pc fresh => exact Or.inr (Or.inr ⟨pc, fresh, htask, InitPc.carries_of_toRead h⟩)
    | done => cases h

/-- Before the initializer reads the file, only a refresh can carry the map. -/
theorem Covered.task_of_not_begun (h : s.Covered)
    (hresolver : s.resolver = .uninit ∨ s.resolver = .touching) :
    ∃ pc fresh, .running pc fresh ∈ s.tasks ∧ pc.Carries s.whole := by
  rcases h with hready | ⟨pc, hinit, -⟩ | htask
  · rcases hresolver with hres | hres
    · rw [hres] at hready; cases hready
    · rw [hres] at hready; cases hready
  · rcases hresolver with hres | hres
    · rw [hres] at hinit; cases hinit
    · rw [hres] at hinit; cases hinit
  · exact htask

/-- Another member of a list than the one that is replaced stays. -/
theorem mem_set_of_ne {α : Type*} {l : List α} {i : ℕ} {cur new a : α} (hcur : l[i]? = some cur)
    (ha : a ∈ l) (hne : a ≠ cur) : a ∈ l.set i new := by
  obtain ⟨j, hj⟩ := List.mem_iff_getElem?.mp ha
  have hij : i ≠ j := by
    rintro rfl
    exact hne (Option.some.inj (hj.symm.trans hcur))
  exact List.mem_iff_getElem?.mpr ⟨j, by rw [List.getElem?_set_ne hij, hj]⟩

/-- A step of one refresh, if what this one carried is still covered. -/
theorem Covered.setTask (h : s.Covered) {i : ℕ} {cur new : RefreshTask}
    (hcur : s.tasks[i]? = some cur) (hwritten : s'.written = s.written)
    (hresolver : s'.resolver = s.resolver) (htasks : s'.tasks = s.tasks.set i new)
    (hcarried : ∀ pc fresh, cur = .running pc fresh → pc.Carries s.whole → s'.Covered) :
    s'.Covered := by
  have hwhole : s'.whole = s.whole := by rw [whole, whole, hwritten]
  rcases h with hready | ⟨pc, hinit, hcarries⟩ | ⟨pc, fresh, hmem, hcarries⟩
  · exact Or.inl (by rw [hresolver, hwhole, hready])
  · exact Or.inr (Or.inl ⟨pc, by rw [hresolver, hinit], by rwa [hwhole]⟩)
  · by_cases heq : RefreshTask.running pc fresh = cur
    · exact hcarried pc fresh heq.symm hcarries
    · refine Or.inr (Or.inr ⟨pc, fresh, ?_, by rwa [hwhole]⟩)
      rw [htasks]
      exact mem_set_of_ne hcur hmem heq

/-! ### The invariant -/

/-- What a refresh that began after the last append knows. -/
def Knows (s : Refresh) : InitPc → Prop
  | .compare t => t = s.shared.fileTime
  | .ret none => s.Covered
  | .ret (some map) => map = s.whole
  | _ => True

/-- It knows it as long as no line is appended. -/
theorem Knows.congr {pc : InitPc} (h : s.Knows pc)
    (htime : s'.shared.fileTime = s.shared.fileTime) (hwritten : s'.written = s.written)
    (hcovered : s.Covered → s'.Covered) : s'.Knows pc := by
  cases pc with
  | compare t => exact Eq.trans h htime.symm
  | ret map =>
    cases map with
    | none => exact hcovered h
    | some map => exact Eq.trans h (by rw [whole, whole, hwritten])
  | _ => trivial

/-- The invariant of careful runs.  The file has the lines written; if the second of its time is
the one remembered they are covered, and so they are once a refresh that began after the last
append is over. -/
structure Inv (s : Refresh) : Prop where
  /-- Nothing is truncated. -/
  lines : s.shared.lines = s.written
  /-- A refresh that starts now may skip the file. -/
  remembered : s.shared.mtime = secs s.shared.fileTime → s.written ≠ [] → s.Covered
  /-- A refresh has seen the last line, or was told that it need not look. -/
  refreshed : s.refreshed = true → s.written ≠ [] → s.Covered
  /-- The refreshes that may be the first to do so. -/
  knows : ∀ pc, .running pc true ∈ s.tasks → s.written ≠ [] → s.Knows pc
  /-- The maps about to be stored were read when the file was shorter, or as it is. -/
  old : ∀ map fresh, .running (.ret (some map)) fresh ∈ s.tasks →
    ∃ lines, lines <+: s.written ∧ map = JitLine.toMap lines

namespace Inv

theorem init : Inv init where
  lines := rfl
  remembered _ h := absurd rfl h
  refreshed h := by cases h
  knows _ h := absurd h List.not_mem_nil
  old _ _ h := absurd h List.not_mem_nil

/-- A state with the same lines, time and refreshes, if what was covered is. -/
theorem congr (h : s.Inv) (hshared : s'.shared = s.shared) (hwritten : s'.written = s.written)
    (htasks : s'.tasks = s.tasks) (hrefreshed : s'.refreshed = s.refreshed)
    (hcovered : s.Covered → s'.Covered) : s'.Inv where
  lines := by rw [hshared, hwritten, h.lines]
  remembered := by
    rw [hshared, hwritten]
    exact fun heq hne => hcovered (h.remembered heq hne)
  refreshed := by
    rw [hrefreshed, hwritten]
    exact fun hr hne => hcovered (h.refreshed hr hne)
  knows := by
    rw [htasks, hwritten]
    exact fun pc hmem hne => (h.knows pc hmem hne).congr (by rw [hshared]) hwritten hcovered
  old := by
    rw [htasks, hwritten]
    exact h.old

/-- **A line is appended**: it is in another second than the one remembered, or some thread is
yet to read it. -/
theorem append (h : s.Inv) {line : JitLine} {t : ℕ} (hcareful : s.Careful (.append line t))
    (hstep : s.step (.append line t) = some s') : s'.Inv := by
  rw [step, Option.ite_none_right_eq_some, Option.some.injEq] at hstep
  obtain ⟨-, rfl⟩ := hstep
  have houtdate : ∀ pc fresh, RefreshTask.running pc fresh ∈ s.tasks.map RefreshTask.outdate →
      fresh = false ∧ ∃ fresh', .running pc fresh' ∈ s.tasks := by
    intro pc fresh hmem
    obtain ⟨task, htask, heq⟩ := List.mem_map.mp hmem
    cases task with
    | running pc' fresh' =>
      cases heq
      exact ⟨rfl, fresh', htask⟩
    | done => cases heq
  refine ⟨?_, fun heq _ => ?_, fun hr => ?_, fun pc hmem => ?_, fun map fresh hmem => ?_⟩
  · show s.shared.lines ++ [line] = s.written ++ [line]
    rw [h.lines]
  · have htoRead : s.ToRead := hcareful.resolve_left fun hne => hne heq
    refine covered_of_toRead (htoRead.imp id ?_)
    rintro ⟨task, htask, hread⟩
    refine ⟨task.outdate, List.mem_map_of_mem htask, ?_⟩
    cases task with
    | running pc fresh => exact hread
    | done => exact hread
  · cases hr
  · cases (houtdate pc true hmem).1
  · obtain ⟨-, fresh', hmem'⟩ := houtdate _ fresh hmem
    obtain ⟨lines, hprefix, hmap⟩ := h.old map fresh' hmem'
    exact ⟨lines, hprefix.trans (List.prefix_append _ _), hmap⟩

/-- A refresh is spawned. -/
theorem getResolver (h : s.Inv) (hstep : s.step .getResolver = some s') : s'.Inv := by
  cases hstep
  have hcovered : s.Covered →
      Covered { s with tasks := s.tasks ++ [.running .openFile false] } := by
    refine Or.imp id (Or.imp id ?_)
    rintro ⟨pc, fresh, hmem, hcarries⟩
    exact ⟨pc, fresh, List.mem_append_left _ hmem, hcarries⟩
  refine ⟨h.lines, fun heq hne => hcovered (h.remembered heq hne),
    fun hr hne => hcovered (h.refreshed hr hne), fun pc hmem hne => ?_, fun map fresh hmem => ?_⟩
  · rcases List.mem_append.mp hmem with hmem | hmem
    · exact (h.knows pc hmem hne).congr rfl rfl hcovered
    · cases List.mem_singleton.mp hmem
  · rcases List.mem_append.mp hmem with hmem | hmem
    · exact h.old map fresh hmem
    · cases List.mem_singleton.mp hmem

/-- The static is forced: nothing was installed. -/
theorem force (h : s.Inv) (hstep : s.step .force = some s') : s'.Inv := by
  rw [step, Option.ite_none_right_eq_some, Option.some.injEq] at hstep
  obtain ⟨⟨huninit, -⟩, rfl⟩ := hstep
  refine h.congr rfl rfl rfl rfl fun hcovered => ?_
  exact Or.inr (Or.inr (hcovered.task_of_not_begun (Or.inl huninit)))

/-- The file is opened for truncation: it had no lines. -/
theorem touch (h : s.Inv) {t : Option ℕ} (hcareful : s.Careful (.touch t))
    (hstep : s.step (.touch t) = some s') : s'.Inv := by
  simp only [step, Option.ite_none_right_eq_some] at hstep
  obtain ⟨htouching, hstep⟩ := hstep
  cases t with
  | none =>
    cases hstep
    refine h.congr rfl rfl rfl rfl fun hcovered => ?_
    exact Or.inr (Or.inr (hcovered.task_of_not_begun (Or.inr htouching)))
  | some t =>
    simp only [Option.ite_none_right_eq_some, Option.some.injEq] at hstep
    obtain ⟨-, rfl⟩ := hstep
    -- so no line is written yet, and there is nothing to cover
    have hnil : s.written = [] := by
      rw [← h.lines]
      exact List.length_eq_zero_iff.mp hcareful
    exact ⟨hnil.symm, fun _ hne => absurd hnil hne, fun _ hne => absurd hnil hne,
      fun _ _ hne => absurd hnil hne, h.old⟩

/-- What a thread in `init_resolver` carries, it carries on. -/
theorem carries (h : s.Inv) {w : PerfShared} {pc pc' : InitPc}
    (hinit : s.shared.initResolver pc = some (w, pc')) (hcarries : pc.Carries s.whole) :
    pc'.Carries s.whole := by
  rw [whole, ← h.lines] at hcarries ⊢
  exact PerfShared.carries_initResolver hinit hcarries

/-- The time of the file, and the second remembered, after a step of `init_resolver`. -/
theorem remembered_initResolver (h : s.Inv) {w : PerfShared} {pc pc' : InitPc}
    (hinit : s.shared.initResolver pc = some (w, pc')) (hne : s.written ≠ [])
    (heq : w.mtime = secs w.fileTime) : s.Covered ∨ pc'.toRead = true := by
  rcases PerfShared.mtime_initResolver hinit with hmtime | hread
  · left
    refine h.remembered ?_ hne
    rw [← hmtime, heq, PerfShared.fileTime_initResolver hinit]
  · exact Or.inr hread

/-- **A step of the initializer.** -/
theorem initial (h : s.Inv) (hstep : s.step .initial = some s') : s'.Inv := by
  simp only [step] at hstep
  split at hstep
  · next map hres =>
    -- it returns, and its map is installed
    cases hstep
    refine h.congr rfl rfl rfl rfl fun hcovered => ?_
    rcases hcovered with hready | ⟨pc, hinit, hcarries⟩ | htask
    · rw [hres] at hready; cases hready
    · rw [hres] at hinit
      cases hinit
      exact Or.inl (congrArg LazyResolver.ready hcarries)
    · exact Or.inr (Or.inr htask)
  · next pc _ hres =>
    obtain ⟨⟨w, pc'⟩, hinit, rfl⟩ := Option.map_eq_some_iff.mp hstep
    have hcovered : s.Covered →
        Covered { s with shared := w, resolver := .initializing pc' } := by
      rintro (hready | ⟨pc₀, hinit₀, hcarries⟩ | htask)
      · rw [hres] at hready; cases hready
      · rw [hres] at hinit₀
        cases hinit₀
        exact Or.inr (Or.inl ⟨pc', rfl, h.carries hinit hcarries⟩)
      · exact Or.inr (Or.inr htask)
    refine ⟨?_, fun heq hne => ?_, fun hr hne => hcovered (h.refreshed hr hne),
      fun pc₀ hmem hne => ?_, h.old⟩
    · exact (PerfShared.lines_initResolver hinit).trans h.lines
    · rcases h.remembered_initResolver hinit hne heq with hold | hread
      · exact hcovered hold
      · exact Or.inr (Or.inl ⟨pc', rfl, InitPc.carries_of_toRead hread⟩)
    · exact (h.knows pc₀ hmem hne).congr (PerfShared.fileTime_initResolver hinit) rfl hcovered
  · cases hstep

/-- The refreshes that are not the one that is over, or went on, know what they knew. -/
theorem knows_set (h : s.Inv) {i : ℕ} {new : RefreshTask} (htasks : s'.tasks = s.tasks.set i new)
    (hwritten : s'.written = s.written) (htime : s'.shared.fileTime = s.shared.fileTime)
    (hcovered : s.Covered → s'.Covered)
    (hnew : ∀ pc, new = .running pc true → s'.written ≠ [] → s'.Knows pc) :
    ∀ pc, .running pc true ∈ s'.tasks → s'.written ≠ [] → s'.Knows pc := by
  intro pc hmem hne
  rw [htasks] at hmem
  rcases List.mem_or_eq_of_mem_set hmem with hold | heq
  · exact (h.knows pc hold (hwritten ▸ hne)).congr htime hwritten hcovered
  · exact hnew pc heq.symm hne

theorem old_set (h : s.Inv) {i : ℕ} {new : RefreshTask} (htasks : s'.tasks = s.tasks.set i new)
    (hwritten : s'.written = s.written)
    (hnew : ∀ map fresh, new = .running (.ret (some map)) fresh → map = s.whole) :
    ∀ map fresh, .running (.ret (some map)) fresh ∈ s'.tasks →
      ∃ lines, lines <+: s'.written ∧ map = JitLine.toMap lines := by
  intro map fresh hmem
  rw [htasks] at hmem
  rw [hwritten]
  rcases List.mem_or_eq_of_mem_set hmem with hold | heq
  · exact h.old map fresh hold
  · exact ⟨s.written, List.prefix_rfl, hnew map fresh heq.symm⟩

/-- A refresh returns without a map: the time was the one remembered, or there was no file. -/
theorem skip (h : s.Inv) {i : ℕ} {fresh : Bool}
    (hcur : s.tasks[i]? = some (.running (.ret none) fresh)) :
    Inv { s with tasks := s.tasks.set i .done, refreshed := s.refreshed || fresh } := by
  have hcovered : s.Covered →
      Covered { s with tasks := s.tasks.set i .done, refreshed := s.refreshed || fresh } := by
    intro hs
    refine hs.setTask hcur rfl rfl rfl fun pc fresh' heq hcarries => ?_
    cases heq
    cases hcarries
  refine ⟨h.lines, fun heq hne => hcovered (h.remembered heq hne), fun hr hne => ?_,
    h.knows_set rfl rfl rfl hcovered (fun pc heq => by cases heq),
    h.old_set rfl rfl (fun map fresh heq => by cases heq)⟩
  rcases Bool.or_eq_true_iff.mp hr with hrefreshed | rfl
  · exact hcovered (h.refreshed hrefreshed hne)
  · exact hcovered (h.knows _ (List.mem_of_getElem? hcur) hne)

/-- A map that was read from the file when it was shorter, or as it is, is whole if it is as
long. -/
theorem eq_whole (h : s.Inv) {map : PerfMap} {fresh : Bool}
    (hmem : .running (.ret (some map)) fresh ∈ s.tasks)
    (hlength : s.whole.ranges.length ≤ map.ranges.length) : map = s.whole := by
  obtain ⟨lines, hprefix, rfl⟩ := h.old map fresh hmem
  rw [whole, JitLine.length_toMap, JitLine.length_toMap] at hlength
  rw [whole, hprefix.eq_of_length_le hlength]

/-- A refresh that reaches the length of the whole map carries it. -/
theorem carries_of_reaches (h : s.Inv) {task : RefreshTask} (hmem : task ∈ s.tasks)
    (hreaches : task.reaches s.whole.ranges.length = true) :
    ∃ pc fresh, task = .running pc fresh ∧ pc.Carries s.whole := by
  rcases Bool.or_eq_true_iff.mp hreaches with hread | hmap
  · cases task with
    | running pc fresh => exact ⟨pc, fresh, rfl, InitPc.carries_of_toRead hread⟩
    | done => cases hread
  · unfold RefreshTask.map? at hmap
    split at hmap
    · next map fresh =>
      cases map with
      | none => cases hmap
      | some map =>
        exact ⟨_, fresh, rfl, congrArg some (h.eq_whole hmem (of_decide_eq_true hmap))⟩
    · cases hmap

/-- **A map is stored**: if it takes the place of the whole one, it is whole, or some other refresh
carries that. -/
theorem store (h : s.Inv) {i : ℕ} {fresh : Bool} {map : PerfMap} {map' : Option PerfMap}
    (hcur : s.tasks[i]? = some (.running (.ret (some map)) fresh))
    (hready : s.resolver = .ready map') (hcareful : s.Careful (.refresh i)) :
    Inv { s with
      resolver := .ready (some map)
      tasks := s.tasks.set i .done
      refreshed := s.refreshed || fresh } := by
  have hcovered : s.Covered →
      Covered { s with
        resolver := .ready (some map)
        tasks := s.tasks.set i .done
        refreshed := s.refreshed || fresh } := by
    intro hs
    -- what covers the lines is a refresh, for whole maps are replaced only if one is left
    have htask : ∃ task ∈ s.tasks, ∃ pc fresh', task = .running pc fresh' ∧ pc.Carries s.whole := by
      rcases hs with hwhole | ⟨pc, hinit, -⟩ | ⟨pc, fresh', hmem, hcarries⟩
      · obtain ⟨task, hmem, hreaches⟩ := hcareful (by rw [hcur]; rfl) s.whole (by rw [hwhole]; rfl)
        exact ⟨task, hmem, h.carries_of_reaches hmem hreaches⟩
      · rw [hready] at hinit; cases hinit
      · exact ⟨_, hmem, pc, fresh', rfl, hcarries⟩
    obtain ⟨task, hmem, pc, fresh', rfl, hcarries⟩ := htask
    by_cases heq : RefreshTask.running pc fresh' = .running (.ret (some map)) fresh
    · cases heq
      exact Or.inl (congrArg LazyResolver.ready hcarries)
    · exact Or.inr (Or.inr ⟨pc, fresh', mem_set_of_ne hcur hmem heq, hcarries⟩)
  refine ⟨h.lines, fun heq hne => hcovered (h.remembered heq hne), fun hr hne => ?_,
    h.knows_set rfl rfl rfl hcovered (fun pc heq => by cases heq),
    h.old_set rfl rfl (fun map fresh heq => by cases heq)⟩
  rcases Bool.or_eq_true_iff.mp hr with hrefreshed | rfl
  · exact hcovered (h.refreshed hrefreshed hne)
  · have hmap : map = s.whole := h.knows _ (List.mem_of_getElem? hcur) hne
    exact Or.inl (by rw [hmap]; rfl)

/-- What a refresh that began after the last append knows one step later. -/
theorem knows_initResolver (h : s.Inv) {w : PerfShared} {pc pc' : InitPc} {fresh : Bool}
    (hmem : .running pc fresh ∈ s.tasks) (hinit : s.shared.initResolver pc = some (w, pc'))
    (hfresh : (fresh || pc = .openFile) = true) (hne : s.written ≠ []) : s.Knows pc' := by
  have hlines : s.shared.lines ≠ [] := by rwa [h.lines]
  rcases PerfShared.initResolver_cases hinit with ⟨-, -, ⟨hnil, -⟩ | rfl⟩ |
    ⟨-, -, ⟨hnil, -⟩ | rfl⟩ | ⟨t, rfl, -, ⟨hsecs, rfl⟩ | rfl⟩ | ⟨t, -, -, rfl⟩ | ⟨-, -, rfl⟩
  · exact absurd hnil hlines
  · trivial
  · exact absurd hnil hlines
  · exact rfl
  · -- it read the time of the last append, and that second is remembered
    simp only [reduceCtorEq, decide_false, Bool.or_false] at hfresh
    subst hfresh
    have htime : t = s.shared.fileTime := h.knows _ hmem hne
    exact h.remembered (htime ▸ hsecs) hne
  · trivial
  · trivial
  · show JitLine.toMap s.shared.lines = s.whole
    rw [h.lines, whole]

/-- A refresh goes on in `init_resolver`. -/
theorem advance (h : s.Inv) {i : ℕ} {w : PerfShared} {pc pc' : InitPc} {fresh : Bool}
    (hcur : s.tasks[i]? = some (.running pc fresh))
    (hinit : s.shared.initResolver pc = some (w, pc')) :
    Inv { s with
      shared := w
      tasks := s.tasks.set i (.running pc' (fresh || pc = .openFile)) } := by
  have hmem' : RefreshTask.running pc' (fresh || pc = .openFile) ∈
      s.tasks.set i (.running pc' (fresh || pc = .openFile)) := by
    obtain ⟨hi, -⟩ := List.getElem?_eq_some_iff.mp hcur
    exact List.mem_set hi _
  have hcovered : s.Covered →
      Covered { s with
        shared := w
        tasks := s.tasks.set i (.running pc' (fresh || pc = .openFile)) } := by
    intro hs
    refine hs.setTask hcur rfl rfl rfl fun pc₀ fresh₀ heq hcarries => ?_
    cases heq
    exact Or.inr (Or.inr ⟨pc', _, hmem', h.carries hinit hcarries⟩)
  refine ⟨(PerfShared.lines_initResolver hinit).trans h.lines, fun heq hne => ?_,
    fun hr hne => hcovered (h.refreshed hr hne),
    h.knows_set rfl rfl (PerfShared.fileTime_initResolver hinit) hcovered fun pc₀ heq hne => ?_,
    h.old_set rfl rfl fun map fresh₀ heq => ?_⟩
  · rcases h.remembered_initResolver hinit hne heq with hold | hread
    · exact hcovered hold
    · exact Or.inr (Or.inr ⟨pc', _, hmem', InitPc.carries_of_toRead hread⟩)
  · rw [RefreshTask.running.injEq] at heq
    obtain ⟨rfl, hfresh⟩ := heq
    exact (h.knows_initResolver (List.mem_of_getElem? hcur) hinit hfresh hne).congr
      (PerfShared.fileTime_initResolver hinit) rfl hcovered
  · rw [RefreshTask.running.injEq] at heq
    obtain ⟨rfl, -⟩ := heq
    rw [PerfShared.map_initResolver hinit, h.lines, whole]

/-- **A careful step keeps the invariant.** -/
theorem step (h : s.Inv) {e : RefreshEvent} (hcareful : s.Careful e)
    (hstep : s.step e = some s') : s'.Inv := by
  cases e with
  | append line t => exact h.append hcareful hstep
  | getResolver => exact h.getResolver hstep
  | force => exact h.force hstep
  | touch t => exact h.touch hcareful hstep
  | initial => exact h.initial hstep
  | refresh i =>
    obtain ⟨task, hcur, htask⟩ := Option.bind_eq_some_iff.mp hstep
    rcases stepTask_cases htask with ⟨fresh, rfl, rfl⟩ | ⟨map, map', fresh, rfl, hready, rfl⟩ |
      ⟨pc, fresh, w, pc', rfl, hinit, rfl⟩
    · exact h.skip hcur
    · exact h.store hcur hready hcareful
    · exact h.advance hcur hinit

end Inv

/-! ### Runs -/

/-- When nothing is under way, what is covered is installed. -/
theorem found_of_covered (hsettled : s.Settled) (h : s.Covered) : s.Found := by
  obtain ⟨-, hdone, hbusy⟩ := hsettled
  rcases h with hready | ⟨pc, hinit, -⟩ | ⟨pc, fresh, hmem, -⟩
  · intro line hline addr hcontains
    have hsome : (PerfLine.first (s.written.map Subtype.val) addr).isSome = true :=
      List.find?_isSome.mpr ⟨line.1, List.mem_map_of_mem hline, decide_eq_true hcontains⟩
    obtain ⟨first, hfirst⟩ := Option.isSome_iff_exists.mp hsome
    refine ⟨s.whole, first, hready, hfirst, ?_⟩
    rw [whole, JitLine.toMap, PerfMap.find_ranges, hfirst, Option.map_some]
  · rw [hinit] at hbusy; cases hbusy
  · cases hdone _ hmem

/-- **Every line is found** in every state of a run of careful steps in which a refresh that
began after the last append is over and none is under way. -/
theorem found_of_reach (hreach : Machine.Reach step Careful init s) (hsettled : s.Settled) :
    s.Found := by
  have hinv : s.Inv := hreach.invariant Inv.init fun _ _ _ h hcareful hstep =>
    h.step hcareful hstep
  by_cases hnil : s.written = []
  · intro line hline
    exact absurd (hnil ▸ hline) List.not_mem_nil
  · exact found_of_covered hsettled (hinv.refreshed hsettled.1 hnil)

/-- A line of the function `f`. -/
def lineF : PerfLine where
  start := ⟨['4', '0'], by decide, by decide, by decide⟩
  len := ⟨['1', 'f'], by decide, by decide, by decide⟩
  name := ['f']

/-- A line of the function `g`. -/
def lineG : PerfLine where
  start := ⟨['6', '0'], by decide, by decide, by decide⟩
  len := ⟨['1', 'f'], by decide, by decide, by decide⟩
  name := ['g']

theorem lineF_fits : lineF.Fits ∧ '\n' ∉ lineF.name := by decide

theorem lineG_fits : lineG.Fits ∧ '\n' ∉ lineG.name := by decide

/-- The steps `k` times of the `i`th refresh. -/
def refreshes (i k : ℕ) : List RefreshEvent := List.replicate k (.refresh i)

/-- The first call: the file is made in the fifth second, the initializer reads it, and the
refresh has nothing to do. -/
def firstCall : List RefreshEvent :=
  [.getResolver, .force, .touch (some (5 * 10 ^ 9))] ++ List.replicate 6 .initial ++ refreshes 0 4

/-- Two lines appended in seconds of their own; the refresh of the second stores its map after
that of the first, which was read before. -/
def inOrder : List RefreshEvent :=
  firstCall ++ [.append ⟨lineF, lineF_fits⟩ (6 * 10 ^ 9), .getResolver] ++ refreshes 1 5 ++
    [.append ⟨lineG, lineG_fits⟩ (7 * 10 ^ 9), .getResolver] ++ refreshes 1 1 ++ refreshes 2 6

theorem found_of_reach_inOrder :
    ∃ s, Machine.run step init inOrder = some s ∧ s.written.length = 2 ∧ s.Found := by
  have hvalues : (Machine.run step init inOrder).map
      (fun s => (decide s.Settled, s.written.length)) = some (true, 2) := by
    decide +kernel
  have hcareful : Machine.Throughout step Careful init inOrder := by
    decide +kernel
  obtain ⟨s, hs, hpair⟩ := Option.map_eq_some_iff.mp hvalues
  obtain ⟨hsettled, hlength⟩ := Prod.mk.inj hpair
  exact ⟨s, hs, hlength,
    found_of_reach (Machine.Reach.of_throughout hcareful hs) (of_decide_eq_true hsettled)⟩

/-- A line is written before the first call, which truncates the file. -/
def truncated : List RefreshEvent := .append ⟨lineF, lineF_fits⟩ (5 * 10 ^ 9) :: firstCall

/-- A line is appended a nanosecond after the file was read. -/
def sameSecond : List RefreshEvent :=
  firstCall ++ [.append ⟨lineF, lineF_fits⟩ (5 * 10 ^ 9 + 1), .getResolver] ++ refreshes 1 4

/-- The maps of two refreshes are stored in the other order than they were read; the next
refresh skips the file. -/
def overtaken : List RefreshEvent :=
  firstCall ++ [.append ⟨lineF, lineF_fits⟩ (6 * 10 ^ 9), .getResolver] ++ refreshes 1 5 ++
    [.append ⟨lineG, lineG_fits⟩ (7 * 10 ^ 9), .getResolver] ++ refreshes 2 6 ++ refreshes 1 1 ++
    [.getResolver] ++ refreshes 3 4

/-- No range of the map installed has an address of the last line written. -/
def missesLast (s : Refresh) : Bool :=
  match s.written.getLast?, s.resolver with
  | some line, .ready (some map) =>
    decide (line.1.Contains line.1.start.value) && (map.find line.1.start.value).isNone
  | _, _ => false

theorem not_found_of_missesLast (h : s.missesLast = true) : ¬s.Found := by
  unfold missesLast at h
  split at h
  · next line map hlast hready =>
    intro hfound
    obtain ⟨hcontains, hnone⟩ := Bool.and_eq_true_iff.mp h
    obtain ⟨map', first, hready', -, hfind⟩ :=
      hfound line (List.mem_of_getLast? hlast) _ (of_decide_eq_true hcontains)
    rw [hready, LazyResolver.ready.injEq, Option.some.injEq] at hready'
    rw [hready', hfind] at hnone
    cases hnone
  · cases h

/-- A run at whose end all is settled, and a line is not found. -/
def Loses (run : List RefreshEvent) : Prop :=
  ∃ s, Machine.run step init run = some s ∧ s.Settled ∧ ¬s.Found

theorem loses_of_missesLast {run : List RefreshEvent}
    (h : (Machine.run step init run).map (fun s => (decide s.Settled, s.missesLast)) =
      some (true, true)) : Loses run := by
  obtain ⟨s, hs, hpair⟩ := Option.map_eq_some_iff.mp h
  obtain ⟨hsettled, hmisses⟩ := Prod.mk.inj hpair
  exact ⟨s, hs, of_decide_eq_true hsettled, not_found_of_missesLast hmisses⟩

/-- **Without care lines are lost**: by the truncation, by the second remembered, and by the order
of the stores. -/
theorem truncated_sameSecond_overtaken_lose :
    Loses truncated ∧ Loses sameSecond ∧ Loses overtaken := by
  refine ⟨loses_of_missesLast ?_, loses_of_missesLast ?_, loses_of_missesLast ?_⟩
  · decide +kernel
  · decide +kernel
  · decide +kernel

end Refresh

end Rpprof
