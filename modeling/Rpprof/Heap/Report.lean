import Rpprof.Heap.Hooks
import Rpprof.Profiler.Report

/-!
# Heap reports

What a heap profile shows: one record a callsite, with its stack resolved.  Either column of
bytes can be turned into a report like those of the CPU profiler, to be drawn by the same
tools; the sampling rate in bytes then stands where the sampling frequency would.

## Main definitions

* `HeapRecord`, `HeapReport` — the records.
* `HeapReport.toInuseReport`, `HeapReport.toAllocReport` — the conversions.

## Main results

* `HeapReport.exists_of_mem_column` — an entry of a converted report is what some record has
  in that column.
-/

namespace Rpprof

/-- `x as i32`. -/
def asI32 (x : ℤ) : ℤ := x.bmod (2 ^ 32)

/-- The result of an operation on `i64`; `none` is the panic of an overflow. -/
def checkedI64 (x : ℤ) : Option ℤ := if -2 ^ 63 ≤ x ∧ x < 2 ^ 63 then some x else none

/-- `HeapRecord`. -/
structure HeapRecord where
  frames : Frames
  allocObjects : ℕ
  allocBytes : ℕ
  inuseObjects : ℤ
  inuseBytes : ℤ

/-- `HeapReport`. -/
structure HeapReport where
  records : List HeapRecord
  sampleRate : ℕ
  timestamp : ℕ

namespace HeapReport

/-- The loop of both conversions: the column of the records that have something in it. -/
def column (bytes : HeapRecord → ℤ) (records : List HeapRecord) : Table Frames ℤ :=
  records.foldl (fun data r =>
    if bytes r > 0 then data.insert r.frames (asIsize (bytes r)) else data) Table.empty

/-- The timing of a converted report. -/
def timing (report : HeapReport) : ReportTiming :=
  ⟨asI32 report.sampleRate, report.timestamp, 0, .cpu⟩

/-- `to_inuse_report`. -/
def toInuseReport (report : HeapReport) : Report :=
  ⟨column (fun r => r.inuseBytes) report.records, report.timing, 0⟩

/-- `to_alloc_report`. -/
def toAllocReport (report : HeapReport) : Report :=
  ⟨column (fun r => r.allocBytes) report.records, report.timing, 0⟩

@[simp] theorem frequency_toInuseReport (report : HeapReport) :
    report.toInuseReport.timing.frequency = asI32 report.sampleRate := by
  simp only [toInuseReport, timing]

@[simp] theorem frequency_toAllocReport (report : HeapReport) :
    report.toAllocReport.timing.frequency = asI32 report.sampleRate := by
  simp only [toAllocReport, timing]

/-- An insertion brings in no value but its own. -/
theorem value_of_mem_insert {m : Table Frames ℤ} {k : Frames} {v : ℤ} {p : Frames × ℤ}
    (h : p ∈ (m.insert k v).entries) : p.2 = v ∨ p ∈ m.entries := by
  cases hget : m.get? k with
  | none =>
    rw [Table.entries_insert_of_none hget] at h
    rcases List.mem_cons.mp h with rfl | hold
    · exact Or.inl rfl
    · exact Or.inr hold
  | some w =>
    rw [Table.insert_of_some hget] at h
    obtain ⟨q, hq, rfl⟩ := List.mem_map.mp h
    rw [Table.modifyEntry]
    split
    · exact Or.inl rfl
    · exact Or.inr hq

/-- An entry of a column is what some record has in it. -/
theorem exists_of_mem_column {bytes : HeapRecord → ℤ} {records : List HeapRecord}
    {p : Frames × ℤ} (h : p ∈ (column bytes records).entries) :
    ∃ r ∈ records, 0 < bytes r ∧ p.2 = asIsize (bytes r) := by
  have hfold : ∀ m : Table Frames ℤ, p ∈ (records.foldl (fun data r =>
      if bytes r > 0 then data.insert r.frames (asIsize (bytes r)) else data) m).entries →
      (∃ r ∈ records, 0 < bytes r ∧ p.2 = asIsize (bytes r)) ∨ p ∈ m.entries := by
    clear h
    induction records with
    | nil => exact fun m hp => Or.inr hp
    | cons r records ih =>
      intro m hp
      rw [List.foldl_cons] at hp
      rcases ih _ hp with ⟨r', hr', hpos, hval⟩ | hold
      · exact Or.inl ⟨r', List.mem_cons_of_mem r hr', hpos, hval⟩
      · split at hold
        · next hpos =>
          rcases value_of_mem_insert hold with hval | hmem
          · exact Or.inl ⟨r, List.mem_cons_self, hpos, hval⟩
          · exact Or.inr hmem
        · exact Or.inr hold
  rcases hfold Table.empty h with hrec | hnone
  · exact hrec
  · cases hnone

end HeapReport

end Rpprof
