import Rpprof.Export.Pprof

/-!
# Source attribution in profiles

Functions and locations are told apart by demangled name alone, while line number, raw name
and file are those of the one symbol that was met first.  So a profile attributes every
occurrence of a symbol to its own source exactly if all symbols of one name agree in it.

## Main definitions

* `Carries`, `Attributed` — a location has its symbol's own line, raw name and file.
* `SameSource` — symbols of one name agree in these.
* `Exported` — a report of either kind.

## Main results

* `Written.attributed_of_sameSource`, `Written.sameSource_of_attributed` — the two directions.
* `Exported.attributed_iff` — **when a profile has the source of every occurrence**.
-/

namespace Rpprof

open Protos

/-- A location has the line of a symbol, and its function the symbol's raw name and file. -/
def Carries (p : Profile) (s : Symbol) (id : ℕ) : Prop :=
  ∃ line f, p.lineOf id = some line ∧ line.line = s.line ∧
    p.functionOf line.functionId = some f ∧ p.string f.systemName = some s.sysName ∧
    p.string f.filename = some s.filenameText

/-- Every occurrence of a symbol has a location that carries it. -/
def Attributed (p : Profile) (traces : List Frames) : Prop :=
  List.Forall₂ (fun k smp => List.Forall₂ (Carries p) k.symbols smp.locationId) traces p.sample

/-- Symbols of one demangled name agree in line, raw name and file. -/
def SameSource (demangle : String → String) (traces : List Frames) : Prop :=
  ∀ k ∈ traces, ∀ s ∈ k.symbols, ∀ k' ∈ traces, ∀ s' ∈ k'.symbols,
    s.demangled demangle = s'.demangled demangle →
      s.line = s'.line ∧ s.sysName = s'.sysName ∧ s.filenameText = s'.filenameText

/-- Two symbols that one location carries agree. -/
theorem Carries.agree {p : Profile} {s s' : Symbol} {id : ℕ} (h : Carries p s id)
    (h' : Carries p s' id) :
    s.line = s'.line ∧ s.sysName = s'.sysName ∧ s.filenameText = s'.filenameText := by
  obtain ⟨line, f, hline, hnum, hf, hsys, hfile⟩ := h
  obtain ⟨line', f', hline', hnum', hf', hsys', hfile'⟩ := h'
  obtain rfl : line = line' := Option.some.inj (hline.symm.trans hline')
  obtain rfl : f = f' := Option.some.inj (hf.symm.trans hf')
  refine ⟨?_, Option.some.inj (hsys.symm.trans hsys'), Option.some.inj (hfile.symm.trans hfile')⟩
  rw [hnum] at hnum'
  omega

namespace Written

variable {demangle : String → String} {p : Profile} {firsts : List Symbol} {traces : List Frames}

/-- Symbols of one name have one location. -/
theorem refers_unique (h : Written demangle traces p firsts) {s s' : Symbol} {id id' : ℕ}
    (hr : Refers demangle firsts s id) (hr' : Refers demangle firsts s' id')
    (hname : s.demangled demangle = s'.demangled demangle) : id = id' := by
  obtain ⟨j, first, hj, hfirst, rfl⟩ := hr
  obtain ⟨j', first', hj', hfirst', rfl⟩ := hr'
  have hlt : j < (firsts.map (Symbol.demangled demangle)).length := by
    rw [List.length_map]
    exact (List.getElem?_eq_some_iff.mp hj).1
  have hsame : (firsts.map (Symbol.demangled demangle))[j]? =
      (firsts.map (Symbol.demangled demangle))[j']? := by
    rw [List.getElem?_map, List.getElem?_map, hj, hj', Option.map_some, Option.map_some, hfirst,
      hfirst', hname]
  rw [(List.getElem?_inj hlt h.nodup).mp hsame]

/-- A location carries the symbol it was written for. -/
theorem carries_first (h : Written demangle traces p firsts) {j : ℕ} {first : Symbol}
    (hj : firsts[j]? = some first) : Carries p first (j + 1) := by
  have hfirst := List.mem_of_getElem? hj
  obtain ⟨hline, -⟩ := h.functionAt hj
  refine ⟨_, functionFor demangle (Table.ofIndices p.stringTable) j first, hline, rfl, ?_, ?_, ?_⟩
  · rw [h.functionOf, hj]
    rfl
  · exact string_index (h.strings_of_first hfirst (by simp [symbolStrings]))
  · exact string_index (h.strings_of_first hfirst (by simp [symbolStrings]))

/-- Where symbols of one name agree, the first one's source is that of all. -/
theorem attributed_of_sameSource (h : Written demangle traces p firsts)
    (hsame : SameSource demangle traces) : Attributed p traces := by
  have hall : ∀ k ∈ traces, ∀ s ∈ k.symbols, ∀ id, Refers demangle firsts s id →
      Carries p s id := by
    rintro k hk s hs id ⟨j, first, hj, hname, rfl⟩
    obtain ⟨k', hk', hfirst⟩ := h.firsts_mem first (List.mem_of_getElem? hj)
    obtain ⟨hline, hsys, hfile⟩ := hsame k' hk' first hfirst k hk s hs hname
    obtain ⟨line, f, hloc, hnum, hf, hsysName, hfilename⟩ := h.carries_first hj
    rw [hline] at hnum
    rw [hsys] at hsysName
    rw [hfile] at hfilename
    exact ⟨line, f, hloc, hnum, hf, hsysName, hfilename⟩
  have hpairs := (List.forall₂_and_left _ _).mpr ⟨hall, h.samples⟩
  refine hpairs.imp fun k smp hpair => ?_
  exact ((List.forall₂_and_left _ _).mpr hpair).imp fun s id hs => hs.1 id hs.2

/-- Where every occurrence has its own source, symbols of one name agree: they have one
location. -/
theorem sameSource_of_attributed (h : Written demangle traces p firsts)
    (hattr : Attributed p traces) : SameSource demangle traces := by
  have hboth : List.Forall₂ (fun k smp => List.Forall₂ (fun s id =>
      Refers demangle firsts s id ∧ Carries p s id) k.symbols smp.locationId) traces p.sample := by
    refine List.Forall₂.mp (fun k smp hrefers hcarries => ?_) h.samples hattr
    exact List.Forall₂.mp (fun s id hr hc => ⟨hr, hc⟩) hrefers hcarries
  intro k hk s hs k' hk' s' hs' hname
  obtain ⟨smp, -, hsmp⟩ := hboth.exists_right hk
  obtain ⟨id, -, hr, hc⟩ := hsmp.exists_right hs
  obtain ⟨smp', -, hsmp'⟩ := hboth.exists_right hk'
  obtain ⟨id', -, hr', hc'⟩ := hsmp'.exists_right hs'
  obtain rfl := h.refers_unique hr hr' hname
  exact hc.agree hc'

end Written

/-! ### Reports of either kind -/

/-- A report that can be exported. -/
inductive Exported where
  | ofReport (report : Report)
  | ofHeap (report : HeapReport)

namespace Exported

/-- `pprof`. -/
def pprof (demangle : String → String) (order : SetOrder) : Exported → Option Profile
  | .ofReport report => report.pprof demangle order
  | .ofHeap report => report.pprof demangle order

/-- The backtraces, in the order of their samples. -/
def traces : Exported → List Frames
  | .ofReport report => report.data.entries.map Prod.fst
  | .ofHeap report => report.records.map HeapRecord.frames

theorem exists_written {demangle : String → String} {order : SetOrder} {e : Exported}
    {p : Profile} (h : e.pprof demangle order = some p) :
    ∃ firsts, Written demangle e.traces p firsts := by
  cases e with
  | ofReport report => exact (Report.pprof_spec h).written
  | ofHeap report => exact (HeapReport.pprof_spec h).written

/-- **A profile has the source of every occurrence of a symbol exactly if all symbols of one
demangled name agree in line, raw name and file.** -/
theorem attributed_iff (demangle : String → String) (order : SetOrder) (e : Exported)
    (p : Profile) (h : e.pprof demangle order = some p) :
    Attributed p e.traces ↔ SameSource demangle e.traces := by
  obtain ⟨firsts, hw⟩ := exists_written h
  exact ⟨hw.sameSource_of_attributed, hw.attributed_of_sameSource⟩

/-- A recursion with both calls on one line, and another function of the file. -/
def oneLine : Frames where
  frames := [[⟨some "f".toUTF8.toList, none, some 10, none⟩],
    [⟨some "f".toUTF8.toList, none, some 10, none⟩], [⟨some "g".toUTF8.toList, none, some 3, none⟩]]
  threadName := "main"
  threadId := 1
  sampleTimestamp := 0

def oneLineHeap : HeapReport := ⟨[⟨oneLine, 2, 64, 1, 32⟩], 524288, 0⟩

theorem attributed_iff_oneLine : ∃ p, (ofHeap oneLineHeap).pprof id default = some p ∧
    p.sample.length = 1 ∧ Attributed p (ofHeap oneLineHeap).traces := by
  obtain ⟨p, hp⟩ := HeapReport.exists_pprof id default oneLineHeap
  have hsame : SameSource id (ofHeap oneLineHeap).traces := by
    unfold SameSource
    decide +kernel
  have hattributed := (attributed_iff id default (ofHeap oneLineHeap) p hp).mpr hsame
  exact ⟨p, hp, hattributed.length_eq.symm, hattributed⟩

/-- The two frames of a recursion differ in their lines. -/
theorem not_sameSource_recursion : ¬SameSource id (ofReport recursionReport).traces := by
  intro h
  have hline := (h recursion List.mem_cons_self _ List.mem_cons_self recursion List.mem_cons_self _
    (List.mem_cons_of_mem _ List.mem_cons_self) rfl).1
  exact absurd hline (by decide)

/-- The caller's frame of a recursion is shown at the line of the callee's. -/
theorem recursion_not_attributed : ∃ p, (ofReport recursionReport).pprof id default = some p ∧
    ¬Attributed p (ofReport recursionReport).traces := by
  have htime : ∀ e ∈ recursionReport.data.entries, ∃ nanos time,
      i64Mul e.2 1000000000 = some nanos ∧
        i64Div nanos recursionReport.timing.frequency = some time := by
    intro e he
    rw [List.mem_singleton.mp he]
    exact ⟨3000000000, 30000000, by decide, by decide⟩
  obtain ⟨p, hp⟩ := Report.exists_pprof id default htime
    ⟨10000000, by decide⟩
  refine ⟨p, hp, fun hattr => ?_⟩
  obtain ⟨firsts, hw⟩ := exists_written (e := ofReport recursionReport) hp
  exact not_sameSource_recursion (hw.sameSource_of_attributed hattr)

end Exported

end Rpprof
