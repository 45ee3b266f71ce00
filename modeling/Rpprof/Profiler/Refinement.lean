import Rpprof.Profiler.Samples

/-!
# The resolved report against the unresolved one

The two builders add up the same entries under two different equalities.  Captured
backtraces are compared by thread id and symbol addresses; resolved ones field by field, the
time of the sample included.  Entries of one backtrace that were taken at different times
are one stack in the unresolved report, and several in the resolved one.

## Main definitions

* `Resolver.ByAddress` — resolution depends on the symbol address only.
* `Refines` — the resolved report is the unresolved one under resolution.

## Main results

* `Frames.ofUnresolved_eq` — which equal backtraces resolve to one key.
* `Refines.of_timestamps` — **the refinement**, where equal backtraces were sampled at one time.
* `ReportBuilder.refines_iff` — and exactly there.
-/

namespace Rpprof

/-- Frames with one symbol address resolve alike. -/
def Resolver.ByAddress (r : Resolver) : Prop :=
  ∀ a b : Frame, a.symbolAddress = b.symbolAddress → Frames.resolve r a = Frames.resolve r b

/-- The part of the thread name that is used. -/
def UnresolvedFrames.usedName (k : UnresolvedFrames) : List UInt8 :=
  k.threadName.take k.threadNameLength

namespace Frames

variable {r : Resolver}

theorem resolveAll_cons (x : Frame) (l : List Frame) : resolveAll r (x :: l) =
    if isHandler r (resolve r x) then resolveAll r l.tail
    else if (resolve r x).isEmpty then resolveAll r l else resolve r x :: resolveAll r l := by
  cases l with
  | nil => simp only [resolveAll, List.tail_nil]
  | cons y l => simp only [resolveAll, List.tail_cons]

theorem resolveAll_congr (hr : r.ByAddress) (a b : List Frame)
    (h : a.map Frame.symbolAddress = b.map Frame.symbolAddress) :
    resolveAll r a = resolveAll r b := by
  induction hlen : a.length using Nat.strong_induction_on generalizing a b with
  | _ n ih =>
    cases a with
    | nil =>
      cases b with
      | nil => rfl
      | cons y b => cases h
    | cons x a =>
      cases b with
      | nil => cases h
      | cons y b =>
        rw [List.map_cons, List.map_cons, List.cons.injEq] at h
        rw [List.length_cons] at hlen
        have htail : a.tail.map Frame.symbolAddress = b.tail.map Frame.symbolAddress := by
          rw [List.map_tail, List.map_tail, h.2]
        have hshort : a.tail.length < n := by
          rw [List.length_tail]
          omega
        rw [resolveAll_cons, resolveAll_cons, ← hr x y h.1,
          ih a.tail.length hshort a.tail b.tail htail rfl,
          ih a.length (by omega) a b h.2 rfl]

/-- Equal backtraces of one name and one time resolve to the same key. -/
theorem ofUnresolved_eq (hr : r.ByAddress) {a b : UnresolvedFrames} (hab : (a == b) = true)
    (hname : a.usedName = b.usedName) (htime : a.sampleTimestamp = b.sampleTimestamp) :
    ofUnresolved r a = ofUnresolved r b := by
  rw [UnresolvedFrames.beq_iff, Prod.mk.injEq] at hab
  rw [UnresolvedFrames.usedName, UnresolvedFrames.usedName] at hname
  rw [ofUnresolved, ofUnresolved, resolveAll_congr hr _ _ hab.2, hname, hab.1, htime]

/-- Backtraces that resolve to one key were sampled at one time. -/
theorem sampleTimestamp_eq {a b : UnresolvedFrames}
    (h : (ofUnresolved r a == ofUnresolved r b) = true) :
    a.sampleTimestamp = b.sampleTimestamp := by
  rw [beq_iff] at h
  exact congrArg (fun p => p.2.2.2) h

end Frames

/-! ### The refinement -/

/-- What the resolved report has of a content is what the unresolved one has of it, under
resolution. -/
structure Refines (r : Resolver) (samples : List UnresolvedFrames)
    (entries : List (Entry UnresolvedFrames)) (u : UnresolvedReport) (v : Report) : Prop where
  /-- Entries of equal backtraces go to one key. -/
  oneKey : ∀ x ∈ entries, ∀ y ∈ entries, (x.item == y.item) = true →
    (Frames.ofUnresolved r x.item == Frames.ofUnresolved r y.item) = true
  /-- The count of a key is the sum of those of the backtraces that resolve to it. -/
  counts : ∀ k, (v.data.get? k).getD 0 =
    (u.data.entries.map fun q => if Frames.ofUnresolved r q.1 == k then q.2 else 0).sum
  atMost : v.uniqueStacks ≤ u.uniqueStacks
  /-- There are as many stacks as there would be if nothing had been evicted. -/
  evictions : ∀ unevicted, Splits samples unevicted → DistinctItems unevicted →
    (aggregate (Frames.ofUnresolved r) unevicted).size = v.uniqueStacks

section Refines

variable {r : Resolver} {samples : List UnresolvedFrames} {entries : List (Entry UnresolvedFrames)}

/-- The unresolved report has each backtrace of the content under the item of some entry. -/
theorem mem_unresolved (h : Splits samples entries) {e : Entry UnresolvedFrames}
    (he : e ∈ entries) : ∃ q ∈ (aggregate id entries).entries, (q.1 == e.item) = true ∧
      ∃ e' ∈ entries, e'.item = q.1 := by
  obtain ⟨q, hq, hk⟩ := mem_aggregate_of_mem id he (h.positive e he)
  obtain ⟨e', he', -, hkey⟩ := key_of_mem_aggregate id hq
  exact ⟨q, hq, hk, e', he', hkey.symm⟩

/-- The unresolved report holds of each backtrace what the entries hold. -/
theorem Splits.classSum_aggregate (h : Splits samples entries) (c : UnresolvedFrames) :
    List.classSum c (entries.map fun e => (e.item, e.count)) =
      List.classSum c (aggregate id entries).entries := by
  have hheld : ((aggregate id entries).get? c).getD 0 = heldFor id c entries := by
    rw [get?_aggregate]
    split
    · next hzero => exact hzero.symm
    · rfl
  rw [Table.classSum_entries, hheld, h.heldFor_eq, ← h.tally, List.classSum, List.map_map]
  rfl

/-- The entries of a class resolve alike, so a test for a key keeps all of them or none. -/
theorem exists_verdict (hone : ∀ x ∈ entries, ∀ y ∈ entries, (x.item == y.item) = true →
      Frames.ofUnresolved r x.item = Frames.ofUnresolved r y.item) (k : Frames)
    (c : UnresolvedFrames) :
    ∃ b : Bool, ∀ e ∈ entries, (e.item == c) = true →
      ((Frames.ofUnresolved r e.item == k) = true ↔ b = true) := by
  by_cases hc : ∃ e₀ ∈ entries, (e₀.item == c) = true
  · obtain ⟨e₀, he₀, hc₀⟩ := hc
    refine ⟨Frames.ofUnresolved r e₀.item == k, fun e he hec => ?_⟩
    rw [hone e he e₀ he₀ (BEq.trans hec (BEq.symm hc₀))]
  · exact ⟨false, fun e he hec => absurd ⟨e, he, hec⟩ hc⟩

/-- Where a content is told apart by resolution no further than by capture, the counts of
the resolved report are sums of those of the unresolved one. -/
theorem heldFor_ofUnresolved (h : Splits samples entries)
    (hone : ∀ x ∈ entries, ∀ y ∈ entries, (x.item == y.item) = true →
      Frames.ofUnresolved r x.item = Frames.ofUnresolved r y.item) (k : Frames) :
    heldFor (Frames.ofUnresolved r) k entries = ((aggregate id entries).entries.map fun q =>
      if Frames.ofUnresolved r q.1 == k then q.2 else 0).sum := by
  let P (c : UnresolvedFrames) : Prop := (Frames.ofUnresolved r c == k) = true
  have hclass : ∀ c, List.classSum c ((entries.map fun e => (e.item, e.count)).map fun q =>
        (q.1, if P q.1 then q.2 else 0)) =
      List.classSum c ((aggregate id entries).entries.map fun q =>
        (q.1, if P q.1 then q.2 else 0)) := by
    intro c
    obtain ⟨b, hb⟩ := exists_verdict hone k c
    have hleft : ∀ q ∈ entries.map fun e => (e.item, e.count), (q.1 == c) = true →
        (P q.1 ↔ b = true) := by
      intro q hq hqc
      obtain ⟨e, he, rfl⟩ := List.mem_map.mp hq
      exact hb e he hqc
    have hright : ∀ q ∈ (aggregate id entries).entries, (q.1 == c) = true →
        (P q.1 ↔ b = true) := by
      intro q hq hqc
      obtain ⟨e, he, -, hkey⟩ := key_of_mem_aggregate id hq
      rw [hkey] at hqc ⊢
      exact hb e he hqc
    rw [List.classSum_ite c _ P _ hleft, List.classSum_ite c _ P _ hright, h.classSum_aggregate]
  have hsum := List.sum_eq_of_classSum_eq _ _ hclass
  rw [List.map_map, List.map_map, List.map_map] at hsum
  refine Eq.trans ?_ hsum
  refine congrArg List.sum (List.map_congr_left fun e he => ?_)
  simp [P, h.positive e he]

/-- Of two contents of the same samples, one whose entries resolve like those under the first
sample of their backtrace has no more keys than the other. -/
theorem size_le_of_first {entries' : List (Entry UnresolvedFrames)} (h : Splits samples entries)
    (h' : Splits samples entries')
    (hfirst : ∀ e ∈ entries, ∀ e₁ ∈ entries, samples.find? (· == e.item) = some e₁.item →
      Frames.ofUnresolved r e₁.item = Frames.ofUnresolved r e.item) :
    (aggregate (Frames.ofUnresolved r) entries).size ≤
      (aggregate (Frames.ofUnresolved r) entries').size := by
  refine Table.size_le_of_image id fun q hq => ?_
  obtain ⟨e, he, -, hkey⟩ := key_of_mem_aggregate _ hq
  obtain ⟨first, hfind, -⟩ := h.exists_first he
  obtain ⟨e₁, he₁, rfl⟩ := h.first e.item first hfind
  -- the other content has the first sample, too
  obtain ⟨e', he', hitem⟩ := h'.first e.item e₁.item hfind
  obtain ⟨q', hq', hk⟩ := mem_aggregate_of_mem (Frames.ofUnresolved r) he' (h'.positive e' he')
  rw [hitem, hfirst e he e₁ he₁ hfind, ← hkey] at hk
  exact ⟨q', hq', hk⟩

/-- The keys of a content that was not evicted are those of any other content of its samples
whose equal backtraces resolve to one key. -/
theorem size_unevicted (h : Splits samples entries)
    (hone : ∀ x ∈ entries, ∀ y ∈ entries, (x.item == y.item) = true →
      Frames.ofUnresolved r x.item = Frames.ofUnresolved r y.item)
    {unevicted : List (Entry UnresolvedFrames)} (h₀ : Splits samples unevicted)
    (hdistinct : DistinctItems unevicted) :
    (aggregate (Frames.ofUnresolved r) unevicted).size =
      (aggregate (Frames.ofUnresolved r) entries).size := by
  apply Nat.le_antisymm
  · refine size_le_of_first h₀ h fun e he e₁ he₁ hfind => ?_
    -- a backtrace has one entry there
    have hk : (e₁.item == e.item) = true := List.find?_some (p := (· == e.item)) hfind
    have hsame : e₁ = e := by
      by_contra hne
      have : Std.Symm fun a b : Entry UnresolvedFrames => (a.item == b.item) = false :=
        ⟨fun a b hab => by rw [BEq.comm]; exact hab⟩
      have hdiff : (e₁.item == e.item) = false := hdistinct.forall he₁ he hne
      rw [hk] at hdiff
      cases hdiff
    rw [hsame]
  · refine size_le_of_first h h₀ fun e he e₁ he₁ hfind => ?_
    exact hone e₁ he₁ e he (List.find?_some (p := (· == e.item)) hfind)

/-- **The refinement**, where equal backtraces of the content carry one name and one time. -/
theorem Refines.of_timestamps (hr : r.ByAddress) (h : Splits samples entries)
    (hname : ∀ x ∈ samples, ∀ y ∈ samples, (x == y) = true → x.usedName = y.usedName)
    (htime : ∀ x ∈ entries, ∀ y ∈ entries, (x.item == y.item) = true →
      x.item.sampleTimestamp = y.item.sampleTimestamp) (t t' : ReportTiming) (m m' : ℕ) :
    Refines r samples entries ⟨aggregate id entries, t, m⟩
      ⟨aggregate (Frames.ofUnresolved r) entries, t', m'⟩ := by
  have hone : ∀ x ∈ entries, ∀ y ∈ entries, (x.item == y.item) = true →
      Frames.ofUnresolved r x.item = Frames.ofUnresolved r y.item := by
    intro x hx y hy hxy
    exact Frames.ofUnresolved_eq hr hxy
      (hname x.item (h.item_mem x hx) y.item (h.item_mem y hy) hxy) (htime x hx y hy hxy)
  constructor
  · intro x hx y hy hxy
    rw [hone x hx y hy hxy]
    exact BEq.refl _
  · intro k
    rw [← heldFor_ofUnresolved h hone, get?_aggregate]
    split
    · next hzero => exact hzero.symm
    · rfl
  · refine Table.size_le_of_image (Frames.ofUnresolved r) fun q hq => ?_
    obtain ⟨e, he, -, hkey⟩ := key_of_mem_aggregate _ hq
    obtain ⟨q', hq', hk, e', he', hitem⟩ := mem_unresolved h he
    refine ⟨q', hq', ?_⟩
    rw [hkey, ← hitem, hone e' he' e he (by rw [hitem]; exact hk)]
    exact BEq.refl _
  · intro unevicted h₀ hdistinct
    exact size_unevicted h hone h₀ hdistinct

end Refines

namespace ReportBuilder

variable {β : Type*} {n : ℕ} [MemImage β (Entry UnresolvedFrames)]

/-- **When the resolved report refines the unresolved one**: exactly if entries of equal
backtraces were sampled at one time. -/
theorem refines_iff {p : Profiler β n} {samples : List UnresolvedFrames}
    {entries : List (Entry UnresolvedFrames)} (hiter : p.data.tryIter = .ok entries)
    (hsplits : Splits samples entries) {r : Resolver} (hr : r.ByAddress)
    (hname : ∀ x ∈ samples, ∀ y ∈ samples, (x == y) = true → x.usedName = y.usedName)
    (timing : ReportTiming) (missed : ℕ) :
    (∃ u v, buildUnresolved ⟨none, timing⟩ (.ok p) missed = .ok u ∧
        build ⟨none, timing⟩ r (.ok p) missed = .ok v ∧ Refines r samples entries u v) ↔
      ∀ x ∈ entries, ∀ y ∈ entries, (x.item == y.item) = true →
        x.item.sampleTimestamp = y.item.sampleTimestamp := by
  constructor
  · rintro ⟨u, v, -, -, hrefines⟩ x hx y hy hxy
    exact Frames.sampleTimestamp_eq (hrefines.oneKey x hx y hy hxy)
  · intro htime
    exact ⟨_, _, buildUnresolved_of_tryIter hiter _ missed, build_of_tryIter hiter _ r missed,
      Refines.of_timestamps hr hsplits hname htime timing timing missed missed⟩

/-- A backtrace of one frame in the function with a number, at a time. -/
def stackOf (number time : ℕ) : UnresolvedFrames :=
  { UnresolvedFrames.default time with
    frames := [⟨4096 * number + 1, 4096 * number⟩]
    threadId := 7 }

/-- Each function has a name of one byte. -/
def numbered : Resolver where
  perfmap := fun _ => none
  symbols := fun frame =>
    [⟨some [UInt8.ofNat (65 + frame.symbolAddress / 4096)], some frame.symbolAddress, none, none⟩]
  demangle := id

/-- Five functions that fall into one bucket, the first of them again after the fifth has
evicted it. -/
def resampled : List UnresolvedFrames :=
  [stackOf 0 1, stackOf 1 2, stackOf 2 3, stackOf 3 4, stackOf 4 5, stackOf 0 6]

/-- A profiler that has sampled them. -/
def resampledProfiler : Profiler (Entry UnresolvedFrames) 7 :=
  letI : MemImage (Entry UnresolvedFrames) (Entry UnresolvedFrames) := MemImage.cell _
  resampled.foldl (fun p k => p.sample (UnresolvedFrames.hash List.sum) k []) Profiler.new

theorem made_sampleAll [NeZero n] (finish : List ℕ → ℕ) (samples : List UnresolvedFrames) :
    (samples.foldl (fun p k => p.sample (UnresolvedFrames.hash finish) k [])
      (Profiler.new : Profiler β n)).Made (UnresolvedFrames.hash finish) samples := by
  induction samples using List.reverseRecOn with
  | nil => exact Profiler.made_nil _ rfl
  | append_singleton samples k ih =>
    rw [List.foldl_append]
    exact ih.sample k []

theorem byAddress_numbered : numbered.ByAddress := by
  intro a b hab
  simp only [Frames.resolve, numbered, hab]

/-- The same, with the first function again at the time it was sampled before. -/
def promptly : List UnresolvedFrames :=
  [stackOf 0 1, stackOf 1 2, stackOf 2 3, stackOf 3 4, stackOf 4 5, stackOf 0 1]

def promptProfiler : Profiler (Entry UnresolvedFrames) 7 :=
  letI : MemImage (Entry UnresolvedFrames) (Entry UnresolvedFrames) := MemImage.cell _
  promptly.foldl (fun p k => p.sample (UnresolvedFrames.hash List.sum) k []) Profiler.new

/-- The first function has two entries, and is one stack captured and resolved. -/
theorem refines_iff_promptly :
    letI : MemImage (Entry UnresolvedFrames) (Entry UnresolvedFrames) := MemImage.cell _
    ∃ entries u v, promptProfiler.data.tryIter = .ok entries ∧ entries.length = 6 ∧
      buildUnresolved ⟨none, default⟩ (.ok promptProfiler) 0 = .ok u ∧
      build ⟨none, default⟩ numbered (.ok promptProfiler) 0 = .ok v ∧
      Refines numbered promptly entries u v := by
  let _ : MemImage (Entry UnresolvedFrames) (Entry UnresolvedFrames) := MemImage.cell _
  have hread : promptProfiler.data.tryIter.toOption.map (fun entries => (entries.length,
      decide (∀ x ∈ entries, ∀ y ∈ entries, (x.item == y.item) = true →
        x.item.sampleTimestamp = y.item.sampleTimestamp))) = some (6, true) := by
    decide +kernel
  cases hiter : promptProfiler.data.tryIter with
  | error e =>
    rw [hiter] at hread
    cases hread
  | ok entries =>
    rw [hiter, Except.toOption, Option.map_some, Option.some.injEq, Prod.mk.injEq,
      decide_eq_true_eq] at hread
    have hmade := made_sampleAll (β := Entry UnresolvedFrames) (n := 7) List.sum promptly
    obtain ⟨u, v, hu, hv, hrefines⟩ := (refines_iff hiter (hmade.splits hiter)
      byAddress_numbered (by decide) default 0).mpr hread.2
    exact ⟨entries, u, v, rfl, hread.1, hu, hv, hrefines⟩

/-- Evicted and sampled again, the first function is one stack captured and two resolved. -/
theorem resampled_not_refines :
    letI : MemImage (Entry UnresolvedFrames) (Entry UnresolvedFrames) := MemImage.cell _
    ∃ u v, buildUnresolved ⟨none, default⟩ (.ok resampledProfiler) 0 = .ok u ∧
      build ⟨none, default⟩ numbered (.ok resampledProfiler) 0 = .ok v ∧
      u.uniqueStacks = 5 ∧ v.uniqueStacks = 6 ∧
      ∀ entries, ¬Refines numbered resampled entries u v := by
  let _ : MemImage (Entry UnresolvedFrames) (Entry UnresolvedFrames) := MemImage.cell _
  have hcaptured : (buildUnresolved ⟨none, default⟩ (.ok resampledProfiler) 0).toOption.map
      UnresolvedReport.uniqueStacks = some 5 := by decide +kernel
  have hresolved : (build ⟨none, default⟩ numbered (.ok resampledProfiler) 0).toOption.map
      Report.uniqueStacks = some 6 := by decide +kernel
  cases hu : buildUnresolved ⟨none, default⟩ (.ok resampledProfiler) 0 with
  | error e =>
    rw [hu] at hcaptured
    cases hcaptured
  | ok u =>
    cases hv : build ⟨none, default⟩ numbered (.ok resampledProfiler) 0 with
    | error e =>
      rw [hv] at hresolved
      cases hresolved
    | ok v =>
      rw [hu] at hcaptured
      rw [hv] at hresolved
      have hu₅ : u.uniqueStacks = 5 := Option.some.inj hcaptured
      have hv₆ : v.uniqueStacks = 6 := Option.some.inj hresolved
      refine ⟨u, v, rfl, rfl, hu₅, hv₆, fun entries hrefines => ?_⟩
      have hle := hrefines.atMost
      omega

end ReportBuilder

end Rpprof
