import Mathlib.Algebra.Order.BigOperators.Group.List
import Mathlib.Algebra.Order.Ring.Int
import Rpprof.Profiler.Profiler
import Rpprof.Lib.Table

/-!
# Reports

Both report builders read the collector once and add the entries up in a hash map, the
unresolved one under the captured backtrace, the other under the resolved backtrace
that a post-processor may rewrite.  Entries of one backtrace that were evicted at
different times come together here; entries without a positive count are left out.

## Main definitions

* `addCount`, `aggregate` — the loop of the two builders.
* `ReportBuilder.buildUnresolved`, `ReportBuilder.build` — the code.
* `totalSamples` — the sum over a report.

## Main results

* `get?_aggregate` — what a report holds for each key.
* `totalSamples_aggregate` — the total is that of the entries, under whatever key.
* `ReportBuilder.totalSamples_build` — so the two reports have the same total.
-/

namespace Rpprof

variable {K : Type*} [BEq K] [EquivBEq K]

/-! ### Adding entries up -/

/-- `get_mut` and add, or `insert`. -/
def addCount (m : Table K ℤ) (key : K) (count : ℤ) : Table K ℤ :=
  match m.get? key with
  | some _ => m.modify key (· + count)
  | none => m.insert key count

/-- The loop of the builders. -/
def aggregate (key : UnresolvedFrames → K) (entries : List (Entry UnresolvedFrames)) :
    Table K ℤ :=
  entries.foldl (fun m e => if e.count > 0 then addCount m (key e.item) e.count else m) Table.empty

omit [EquivBEq K] in
/-- `total_samples`. -/
def totalSamples (m : Table K ℤ) : ℕ := m.valueSum fun v => (max v 0).toNat

/-- Every count in the map is positive. -/
def Positive (m : Table K ℤ) : Prop := ∀ k v, m.get? k = some v → 0 < v

/-- What the entries hold for a key. -/
def heldFor (key : UnresolvedFrames → K) (k : K) (entries : List (Entry UnresolvedFrames)) : ℤ :=
  (entries.map fun e => if e.count > 0 ∧ (key e.item == k) = true then e.count else 0).sum

/-- What the entries hold in all. -/
def heldInAll (entries : List (Entry UnresolvedFrames)) : ℕ :=
  (entries.map fun e => (max e.count 0).toNat).sum

section AddCount

variable {m : Table K ℤ}

theorem get?_addCount (m : Table K ℤ) (key : K) (count : ℤ) (k : K) :
    (addCount m key count).get? k =
      if key == k then some ((m.get? k).getD 0 + count) else m.get? k := by
  unfold addCount
  split
  · next v hv =>
    rw [Table.get?_modify]
    split
    · next hk =>
      rw [← Table.get?_congr m hk, hv]
      rfl
    · rfl
  · next hnone =>
    rw [Table.get?_insert]
    split
    · next hk =>
      rw [← Table.get?_congr m hk, hnone, Option.getD_none, zero_add]
    · rfl

theorem Positive.addCount (hm : Positive m) (key : K) {count : ℤ} (hc : 0 < count) :
    Positive (addCount m key count) := by
  intro k v hv
  rw [get?_addCount] at hv
  split at hv
  · rw [Option.some.injEq] at hv
    cases hold : m.get? k with
    | none =>
      rw [hold, Option.getD_none] at hv
      omega
    | some w =>
      have hw := hm k w hold
      rw [hold, Option.getD_some] at hv
      omega
  · exact hm k v hv

/-- A positive count moves the total by itself, whatever key it goes to. -/
theorem totalSamples_addCount (hm : Positive m) (key : K) {count : ℤ} (hc : 0 < count) :
    totalSamples (addCount m key count) = totalSamples m + count.toNat := by
  unfold addCount
  split
  · next v hv =>
    have hsum := Table.valueSum_modify (fun v : ℤ => (max v 0).toNat) hv (· + count)
    have hpos := hm key v hv
    have hold : (max v 0).toNat = v.toNat := by rw [max_eq_left (by omega)]
    have hnew : (max (v + count) 0).toNat = v.toNat + count.toNat := by
      rw [max_eq_left (by omega)]
      omega
    rw [hold, hnew] at hsum
    rw [totalSamples, totalSamples]
    omega
  · next hnone =>
    rw [totalSamples, Table.valueSum_insert_of_none _ hnone, max_eq_left (by omega), totalSamples,
      Nat.add_comm]

end AddCount

section Aggregate

variable (key : UnresolvedFrames → K)

/-- The loop, from any map on. -/
theorem foldl_aggregate (entries : List (Entry UnresolvedFrames)) : ∀ m : Table K ℤ, Positive m →
    Positive (entries.foldl (fun m e => if e.count > 0 then addCount m (key e.item) e.count else m)
      m) ∧
    (∀ k, ((entries.foldl
      (fun m e => if e.count > 0 then addCount m (key e.item) e.count else m) m).get? k).getD 0 =
        (m.get? k).getD 0 + heldFor key k entries) ∧
    totalSamples (entries.foldl
      (fun m e => if e.count > 0 then addCount m (key e.item) e.count else m) m) =
        totalSamples m + heldInAll entries := by
  induction entries with
  | nil =>
    intro m hm
    refine ⟨hm, fun k => ?_, rfl⟩
    rw [List.foldl_nil, heldFor, List.map_nil, List.sum_nil, add_zero]
  | cons e entries ih =>
    intro m hm
    rw [List.foldl_cons]
    by_cases hc : e.count > 0
    · rw [if_pos hc]
      obtain ⟨hpos, hget, htotal⟩ := ih _ (hm.addCount (key e.item) hc)
      refine ⟨hpos, fun k => ?_, ?_⟩
      · rw [hget, get?_addCount, heldFor, heldFor, List.map_cons, List.sum_cons]
        by_cases hk : (key e.item == k) = true
        · rw [if_pos hk, if_pos ⟨hc, hk⟩, Option.getD_some, add_assoc]
        · rw [if_neg hk, if_neg fun h => hk h.2, zero_add]
      · rw [htotal, totalSamples_addCount hm _ hc, heldInAll, heldInAll, List.map_cons,
          List.sum_cons, max_eq_left (by omega), Nat.add_assoc]
    · -- an entry that was never incremented, or was decremented away
      rw [if_neg hc]
      obtain ⟨hpos, hget, htotal⟩ := ih m hm
      refine ⟨hpos, fun k => ?_, ?_⟩
      · rw [hget, heldFor, heldFor, List.map_cons, List.sum_cons, if_neg fun h => hc h.1, zero_add]
      · rw [htotal, heldInAll, heldInAll, List.map_cons, List.sum_cons, max_eq_right (by omega),
          Int.toNat_zero, Nat.zero_add]

omit [EquivBEq K] in
theorem positive_empty : Positive (Table.empty : Table K ℤ) := by
  intro k v hv
  cases hv

/-- **A report holds for each key what the entries hold for it**, and no key without. -/
theorem get?_aggregate (entries : List (Entry UnresolvedFrames)) (k : K) :
    (aggregate key entries).get? k =
      if heldFor key k entries = 0 then none else some (heldFor key k entries) := by
  obtain ⟨hpos, hget, -⟩ := foldl_aggregate key entries Table.empty positive_empty
  have hk := hget k
  rw [Table.get?_empty, Option.getD_none, zero_add] at hk
  cases hv : (aggregate key entries).get? k with
  | none =>
    have hzero : heldFor key k entries = 0 := by
      rw [← hk]
      exact congrArg (Option.getD · 0) hv
    rw [if_pos hzero]
  | some v =>
    have hv' : v = heldFor key k entries := by
      rw [← hk]
      exact (congrArg (Option.getD · 0) hv).symm
    have := hpos k v hv
    rw [← hv', if_neg (by omega)]

/-- **The total of a report is that of the entries**, under whatever key they went. -/
theorem totalSamples_aggregate (entries : List (Entry UnresolvedFrames)) :
    totalSamples (aggregate key entries) = heldInAll entries := by
  obtain ⟨-, -, htotal⟩ := foldl_aggregate key entries Table.empty positive_empty
  rw [aggregate, htotal]
  exact Nat.zero_add _

/-- Adding a count brings in no key but its own. -/
theorem key_of_mem_addCount {m : Table K ℤ} {key : K} {count : ℤ} {p : K × ℤ}
    (h : p ∈ (addCount m key count).entries) : p.1 = key ∨ ∃ q ∈ m.entries, q.1 = p.1 := by
  unfold addCount at h
  split at h
  · obtain ⟨q, hq, rfl⟩ := List.mem_map.mp h
    exact Or.inr ⟨q, hq, (Table.modifyEntry_fst ..).symm⟩
  · next hnone =>
    rw [Table.entries_insert_of_none hnone] at h
    rcases List.mem_cons.mp h with rfl | hold
    · exact Or.inl rfl
    · exact Or.inr ⟨p, hold, rfl⟩

/-- The keys of a report are those of entries with a positive count. -/
theorem key_of_mem_aggregate {entries : List (Entry UnresolvedFrames)} {p : K × ℤ}
    (h : p ∈ (aggregate key entries).entries) : ∃ e ∈ entries, 0 < e.count ∧ p.1 = key e.item := by
  have hfold : ∀ m : Table K ℤ, p ∈ (entries.foldl
      (fun m e => if e.count > 0 then addCount m (key e.item) e.count else m) m).entries →
      (∃ e ∈ entries, 0 < e.count ∧ p.1 = key e.item) ∨ ∃ q ∈ m.entries, q.1 = p.1 := by
    clear h
    induction entries with
    | nil => exact fun m hp => Or.inr ⟨p, hp, rfl⟩
    | cons e entries ih =>
      intro m hp
      rw [List.foldl_cons] at hp
      rcases ih _ hp with ⟨e', he', hpos, hkey⟩ | ⟨q, hq, hqp⟩
      · exact Or.inl ⟨e', List.mem_cons_of_mem e he', hpos, hkey⟩
      · split at hq
        · next hpos =>
          rcases key_of_mem_addCount hq with hkey | ⟨q', hq', hqq'⟩
          · exact Or.inl ⟨e, List.mem_cons_self, hpos, hqp ▸ hkey⟩
          · exact Or.inr ⟨q', hq', hqq'.trans hqp⟩
        · exact Or.inr ⟨q, hq, hqp⟩
  rcases hfold Table.empty h with hentry | ⟨q, hq, -⟩
  · exact hentry
  · cases hq

/-- An entry with a positive count has its key in the report. -/
theorem mem_aggregate_of_mem {entries : List (Entry UnresolvedFrames)}
    {e : Entry UnresolvedFrames} (he : e ∈ entries) (hpos : 0 < e.count) :
    ∃ q ∈ (aggregate key entries).entries, (q.1 == key e.item) = true := by
  have hheld : e.count ≤ heldFor key (key e.item) entries := by
    refine List.single_le_sum (fun x hx => ?_) _ (List.mem_map.mpr ⟨e, he, ?_⟩)
    · obtain ⟨y, -, rfl⟩ := List.mem_map.mp hx
      split <;> omega
    · exact if_pos ⟨hpos, BEq.refl _⟩
  have hget := get?_aggregate key entries (key e.item)
  rw [if_neg (by omega)] at hget
  obtain ⟨k, hmem, hk⟩ := Table.exists_mem_of_get? hget
  exact ⟨_, hmem, hk⟩

end Aggregate

/-! ### The builders -/

/-- `UnresolvedReport`. -/
structure UnresolvedReport where
  data : Table UnresolvedFrames ℤ
  timing : ReportTiming
  missedSamples : ℕ

/-- `Report`. -/
structure Report where
  data : Table Frames ℤ
  timing : ReportTiming
  missedSamples : ℕ

/-- `unique_stacks`. -/
def UnresolvedReport.uniqueStacks (report : UnresolvedReport) : ℕ := report.data.size

/-- `unique_stacks`. -/
def Report.uniqueStacks (report : Report) : ℕ := report.data.size

/-- `ReportBuilder`. -/
structure ReportBuilder where
  framesPostProcessor : Option (Frames → Frames)
  timing : ReportTiming

/-- `ProfilerGuard::report`, at an instant. -/
def ProfilerGuard.report (g : ProfilerGuard) (instant : ℕ) : ReportBuilder :=
  ⟨none, (g.timer.map fun t => t.timing instant).getD default⟩

variable {β : Type*} {n : ℕ} [MemImage β (Entry UnresolvedFrames)]

namespace ReportBuilder

/-- `build_unresolved`. -/
def buildUnresolved (b : ReportBuilder) (profiler : Except Error (Profiler β n)) (missed : ℕ) :
    Except Error UnresolvedReport :=
  match profiler with
  | .error _ => .error .creatingError
  | .ok p =>
    match p.data.tryIter with
    | .error e => .error (.ioError e)
    | .ok entries => .ok ⟨aggregate id entries, b.timing, missed⟩

/-- The key of a backtrace in a resolved report. -/
def resolvedKey (b : ReportBuilder) (r : Resolver) (k : UnresolvedFrames) : Frames :=
  match b.framesPostProcessor with
  | some processor => processor (Frames.ofUnresolved r k)
  | none => Frames.ofUnresolved r k

/-- `build`. -/
def build (b : ReportBuilder) (r : Resolver) (profiler : Except Error (Profiler β n))
    (missed : ℕ) : Except Error Report :=
  match profiler with
  | .error _ => .error .creatingError
  | .ok p =>
    match p.data.tryIter with
    | .error e => .error (.ioError e)
    | .ok entries => .ok ⟨aggregate (b.resolvedKey r) entries, b.timing, missed⟩

variable {p : Profiler β n} {entries : List (Entry UnresolvedFrames)}

theorem buildUnresolved_of_tryIter (h : p.data.tryIter = .ok entries) (b : ReportBuilder)
    (missed : ℕ) :
    b.buildUnresolved (.ok p) missed = .ok ⟨aggregate id entries, b.timing, missed⟩ := by
  rw [buildUnresolved]
  simp only [h]

theorem build_of_tryIter (h : p.data.tryIter = .ok entries) (b : ReportBuilder) (r : Resolver)
    (missed : ℕ) :
    b.build r (.ok p) missed = .ok ⟨aggregate (b.resolvedKey r) entries, b.timing, missed⟩ := by
  rw [build]
  simp only [h]

/-- **The two reports of one collector have the same total**, whatever the symbols and the
post-processor. -/
theorem totalSamples_build (h : p.data.tryIter = .ok entries) (b b' : ReportBuilder)
    (r : Resolver) (missed : ℕ) :
    ∃ report report', b.buildUnresolved (.ok p) missed = .ok report ∧
      b'.build r (.ok p) missed = .ok report' ∧
      totalSamples report'.data = totalSamples report.data := by
  refine ⟨_, _, buildUnresolved_of_tryIter h b missed, build_of_tryIter h b' r missed, ?_⟩
  rw [totalSamples_aggregate, totalSamples_aggregate]

end ReportBuilder

/-! ### The entries that exports show -/

/-- The entries that are shown. -/
def shown (entries : List (Frames × ℤ)) : List (Frames × ℤ) := entries.filter fun e => 0 < e.2

section Shown

variable {e : Frames × ℤ} {entries : List (Frames × ℤ)}

theorem shown_cons_of_pos (he : 0 < e.2) : shown (e :: entries) = e :: shown entries :=
  List.filter_cons_of_pos (by simpa using he)

theorem shown_cons_of_nonpos (he : e.2 ≤ 0) : shown (e :: entries) = shown entries :=
  List.filter_cons_of_neg (by simpa using he)

end Shown

/-- A sum in `usize`; `none` is the panic of an overflow. -/
def usizeAdd (a b : ℕ) : Option ℕ := if a + b < 2 ^ 64 then some (a + b) else none

theorem eq_of_usizeAdd {a b c : ℕ} (h : usizeAdd a b = some c) : c = a + b := by
  rw [usizeAdd, Option.ite_none_right_eq_some, Option.some.injEq] at h
  exact h.2.symm

/-- `Report::total_samples`, in `usize`. -/
def Report.totalSamples (report : Report) : Option ℕ :=
  report.data.entries.foldlM (fun total e => usizeAdd total (max e.2 0).toNat) 0

/-- Values that add up to less than `2 ^ 64` are added up in `usize`. -/
theorem foldlM_usizeAdd (f : Frames × ℤ → ℕ) (entries : List (Frames × ℤ)) :
    ∀ total, total + (entries.map f).sum < 2 ^ 64 →
      entries.foldlM (fun total e => usizeAdd total (f e)) total =
        some (total + (entries.map f).sum) := by
  induction entries with
  | nil => exact fun total _ => rfl
  | cons e entries ih =>
    intro total h
    rw [List.map_cons, List.sum_cons, ← Nat.add_assoc] at h
    have hadd : usizeAdd total (f e) = some (total + f e) := by
      rw [usizeAdd, if_pos (by omega)]
    rw [List.foldlM_cons, hadd, Option.bind_eq_bind, Option.bind_some, ih _ h, List.map_cons,
      List.sum_cons, Nat.add_assoc]

theorem Report.totalSamples_eq {report : Report} (h : Rpprof.totalSamples report.data < 2 ^ 64) :
    report.totalSamples = some (Rpprof.totalSamples report.data) := by
  have hsum := foldlM_usizeAdd (fun e => (max e.2 0).toNat) report.data.entries 0
  rw [Nat.zero_add] at hsum
  exact hsum h

end Rpprof
