import Rpprof.Heap.Report
import Rpprof.Heap.State

/-!
# Heap reports as reports

A snapshot has one record a callsite, and several callsites of one function can resolve to the
same backtrace.  The conversions insert the bytes of each record under its backtrace; an
insertion replaces what was there.

## Main definitions

* `heapReport` — the snapshot.
* `HeapReport.totalInuseBytes`, `HeapReport.totalAllocBytes` — the totals.
* `HeapReport.Conserves` — the converted reports hold all the bytes, each under its key.
* `HeapReport.Distinct` — no two records with bytes in a column have one backtrace.

## Main results

* `HeapReport.column_eq_classSum_iff` — a column adds up just when its keys are distinct.
* `HeapReport.conserves_iff` — **bytes are conserved if and only if they are in both columns**.
-/

namespace Rpprof

/-! ### The snapshot -/

/-- The frames of a stack: those with symbols. -/
def resolveIps (resolve : ℕ → List Symbol) (ips : List ℕ) : List (List Symbol) :=
  (ips.map resolve).filter fun symbols => !symbols.isEmpty

/-- `heap_report`, for the symbols of an address and the readings of the clock, one a record and
one more at the end. -/
def heapReport (resolve : ℕ → List Symbol) (clock : ℕ → ℕ) (h : HeapState) (sampleRate : ℕ) :
    HeapReport where
  records := h.callsites.entries.mapIdx fun i e =>
    ⟨⟨resolveIps resolve e.2.ips, "", 0, clock i⟩, e.2.allocObjects, e.2.allocBytes,
      e.2.inuseObjects, e.2.inuseBytes⟩
  sampleRate := sampleRate
  timestamp := clock h.callsites.size

namespace HeapReport

/-! ### Totals -/

/-- `total_inuse_bytes`, in `i64`. -/
def totalInuseBytes (report : HeapReport) : Option ℤ :=
  report.records.foldlM (fun total r => checkedI64 (total + max r.inuseBytes 0)) 0

/-- `total_alloc_bytes`, in `u64`. -/
def totalAllocBytes (report : HeapReport) : Option ℕ :=
  report.records.foldlM (fun total r => usizeAdd total r.allocBytes) 0

/-- The positive bytes of the records with a backtrace. -/
def bytesOf (bytes : HeapRecord → ℤ) (records : List HeapRecord) (key : Frames) : ℤ :=
  (records.map fun r => if r.frames == key then max (bytes r) 0 else 0).sum

/-- The totals are those of the converted reports, and every key has the positive bytes of all
the records with it. -/
structure Conserves (report : HeapReport) (inuse : ℤ) (alloc : ℕ) : Prop where
  inuseTotal : report.toInuseReport.totalSamples = some inuse.toNat
  allocTotal : report.toAllocReport.totalSamples = some alloc
  inuseKeys : ∀ key, (report.toInuseReport.data.get? key).getD 0 =
    bytesOf (fun r => r.inuseBytes) report.records key
  allocKeys : ∀ key, (report.toAllocReport.data.get? key).getD 0 =
    bytesOf (fun r => r.allocBytes) report.records key

/-- The records that have something in a column have different backtraces. -/
def Distinct (bytes : HeapRecord → ℤ) (records : List HeapRecord) : Prop :=
  (records.filter fun r => 0 < bytes r).Pairwise fun r r' => (r.frames == r'.frames) = false

instance (bytes : HeapRecord → ℤ) (records : List HeapRecord) :
    Decidable (Distinct bytes records) := inferInstanceAs (Decidable (List.Pairwise _ _))

/-! ### A column -/

section Column

variable {bytes : HeapRecord → ℤ} {records : List HeapRecord}

/-- What a column is filled with. -/
def cells (bytes : HeapRecord → ℤ) (records : List HeapRecord) : List (Frames × ℤ) :=
  (records.filter fun r => 0 < bytes r).map fun r => (r.frames, bytes r)

theorem cells_cons_of_pos {r : HeapRecord} (h : 0 < bytes r) :
    cells bytes (r :: records) = (r.frames, bytes r) :: cells bytes records := by
  rw [cells, List.filter_cons_of_pos (by simpa using h), List.map_cons, ← cells]

theorem cells_cons_of_nonpos {r : HeapRecord} (h : bytes r ≤ 0) :
    cells bytes (r :: records) = cells bytes records := by
  rw [cells, List.filter_cons_of_neg (by simpa using h), ← cells]

theorem pos_of_mem_cells {p : Frames × ℤ} (h : p ∈ cells bytes records) : 0 < p.2 := by
  obtain ⟨r, hr, rfl⟩ := List.mem_map.mp h
  simpa using (List.mem_filter.mp hr).2

theorem bytesOf_eq_classSum (key : Frames) :
    bytesOf bytes records key = List.classSum key (cells bytes records) := by
  induction records with
  | nil => rfl
  | cons r records ih =>
    rw [bytesOf, List.map_cons, List.sum_cons, ← bytesOf, ih]
    by_cases hpos : 0 < bytes r
    · rw [cells_cons_of_pos hpos, max_eq_left hpos.le]
      rfl
    · rw [cells_cons_of_nonpos (not_lt.mp hpos), max_eq_right (not_lt.mp hpos), ite_self, zero_add]

/-- The total of a column's cells. -/
theorem sum_cells :
    ((cells bytes records).map Prod.snd).sum = (records.map fun r => max (bytes r) 0).sum := by
  induction records with
  | nil => rfl
  | cons r records ih =>
    rw [List.map_cons, List.sum_cons, ← ih]
    by_cases hpos : 0 < bytes r
    · rw [cells_cons_of_pos hpos, max_eq_left hpos.le]
      rfl
    · rw [cells_cons_of_nonpos (not_lt.mp hpos), max_eq_right (not_lt.mp hpos), zero_add]

/-- Bytes that fit the counter are inserted as they are. -/
theorem column_eq_insertAll (h : ∀ r ∈ records, bytes r < 2 ^ 63) :
    column bytes records = Table.insertAll (cells bytes records) := by
  have hfold : ∀ m : Table Frames ℤ, records.foldl (fun data r =>
      if bytes r > 0 then data.insert r.frames (asIsize (bytes r)) else data) m =
        (cells bytes records).foldl (fun m p => m.insert p.1 p.2) m := by
    induction records with
    | nil => exact fun m => rfl
    | cons r records ih =>
      rw [List.forall_mem_cons] at h
      intro m
      rw [List.foldl_cons, ih h.2]
      by_cases hpos : 0 < bytes r
      · rw [cells_cons_of_pos hpos, if_pos hpos, asIsize_eq (by omega) h.1, List.foldl_cons]
      · rw [cells_cons_of_nonpos (not_lt.mp hpos), if_neg hpos]
  exact hfold Table.empty

/-- **A column holds all the bytes of each backtrace just when no two of its records have the
same.** -/
theorem column_eq_classSum_iff (h : ∀ r ∈ records, bytes r < 2 ^ 63) :
    (∀ key, ((column bytes records).get? key).getD 0 = bytesOf bytes records key) ↔
      Distinct bytes records := by
  simp only [column_eq_insertAll h, bytesOf_eq_classSum]
  rw [Table.insertAll_eq_classSum_iff fun p hp => pos_of_mem_cells hp, cells, List.pairwise_map]
  rfl

/-- And then it has all the bytes there are. -/
theorem totalSamples_column (h : ∀ r ∈ records, bytes r < 2 ^ 63)
    (hdistinct : Distinct bytes records) :
    (totalSamples (column bytes records) : ℤ) = (records.map fun r => max (bytes r) 0).sum := by
  have hpos : ∀ p ∈ (column bytes records).entries, 0 ≤ p.2 := by
    intro p hp
    obtain ⟨r, hr, hr_pos, hval⟩ := exists_of_mem_column hp
    rw [hval, asIsize_eq (by omega) (h r hr)]
    exact hr_pos.le
  have hclasses := (column_eq_classSum_iff h).mpr hdistinct
  have hsum := List.sum_eq_of_classSum_eq (column bytes records).entries (cells bytes records)
    fun key => by rw [Table.classSum_entries, hclasses, bytesOf_eq_classSum]
  rw [← sum_cells, ← hsum, totalSamples, Table.valueSum, Nat.cast_list_sum, List.map_map]
  refine congrArg List.sum (List.map_congr_left fun p hp => ?_)
  have := hpos p hp
  rw [Function.comp_apply, max_eq_left this, Int.toNat_of_nonneg this]

end Column

/-! ### Both columns -/

/-- No record has more than the total. -/
theorem le_sum {f : HeapRecord → ℤ} (hf : ∀ r, 0 ≤ f r) {records : List HeapRecord}
    {r : HeapRecord} (hr : r ∈ records) : f r ≤ (records.map f).sum := by
  refine List.single_le_sum (fun x hx => ?_) _ (List.mem_map_of_mem hr)
  obtain ⟨r', -, rfl⟩ := List.mem_map.mp hx
  exact hf r'

variable {report : HeapReport}

theorem inuse_of_total {inuse : ℤ} (h : report.totalInuseBytes = some inuse) :
    inuse = (report.records.map fun r => max r.inuseBytes 0).sum ∧ inuse < 2 ^ 63 := by
  have hop : ∀ a b c : ℤ, checkedI64 (a + b) = some c → c = a + b ∧ c < 2 ^ 63 := by
    intro a b c hadd
    rw [checkedI64, Option.ite_none_right_eq_some, Option.some.injEq] at hadd
    obtain ⟨⟨-, hlt⟩, rfl⟩ := hadd
    exact ⟨rfl, hlt⟩
  have hsum := List.sum_of_foldlM_checked (I := (· < 2 ^ 63)) hop (by norm_num) h
  rw [zero_add] at hsum
  exact hsum

theorem alloc_of_total {alloc : ℕ} (h : report.totalAllocBytes = some alloc) :
    (alloc : ℤ) = (report.records.map fun r => max (r.allocBytes : ℤ) 0).sum := by
  have hsum := (List.sum_of_foldlM_checked (I := fun _ => True)
    (fun _ _ _ hadd => ⟨eq_of_usizeAdd hadd, trivial⟩) trivial h).1
  rw [hsum, Nat.zero_add, Nat.cast_list_sum, List.map_map]
  refine congrArg List.sum (List.map_congr_left fun r _ => ?_)
  exact (max_eq_left (Int.natCast_nonneg _)).symm

/-- The converted report has the total of its column, if that adds up. -/
theorem totalSamples_eq_some {bytes : HeapRecord → ℤ} {records : List HeapRecord} {total : ℤ}
    (htotal : total = (records.map fun r => max (bytes r) 0).sum) (hmax : total < 2 ^ 63)
    (hdistinct : Distinct bytes records) (timing : ReportTiming) :
    (⟨column bytes records, timing, 0⟩ : Report).totalSamples = some total.toNat := by
  have hbytes : ∀ r ∈ records, bytes r < 2 ^ 63 := by
    intro r hr
    have hle := le_sum (f := fun r => max (bytes r) 0) (fun r => le_max_right _ _) hr
    have := le_max_left (bytes r) 0
    omega
  have hsum := totalSamples_column hbytes hdistinct
  rw [← htotal] at hsum
  have hlt : totalSamples (column bytes records) < 2 ^ 64 := by omega
  rw [Report.totalSamples_eq hlt, ← hsum]
  rfl

/-- **The conversions conserve bytes if and only if, in either column, no two records with bytes
have one backtrace.** -/
theorem conserves_iff {inuse : ℤ} {alloc : ℕ} (hinuse : report.totalInuseBytes = some inuse)
    (halloc : report.totalAllocBytes = some alloc) (hmax : alloc < 2 ^ 63) :
    report.Conserves inuse alloc ↔ Distinct (fun r => r.inuseBytes) report.records ∧
      Distinct (fun r => r.allocBytes) report.records := by
  obtain ⟨hinuse_eq, hinuse_lt⟩ := inuse_of_total hinuse
  have halloc_eq := alloc_of_total halloc
  have hinuseBytes : ∀ r ∈ report.records, r.inuseBytes < 2 ^ 63 := by
    intro r hr
    have hle := le_sum (f := fun r => max r.inuseBytes 0) (fun r => le_max_right _ _) hr
    have := le_max_left r.inuseBytes 0
    omega
  have hallocBytes : ∀ r ∈ report.records, (r.allocBytes : ℤ) < 2 ^ 63 := by
    intro r hr
    have hle := le_sum (f := fun r => max (r.allocBytes : ℤ) 0) (fun r => le_max_right _ _) hr
    have := le_max_left (r.allocBytes : ℤ) 0
    omega
  constructor
  · intro h
    exact ⟨(column_eq_classSum_iff hinuseBytes).mp h.inuseKeys,
      (column_eq_classSum_iff hallocBytes).mp h.allocKeys⟩
  · rintro ⟨hinuseDistinct, hallocDistinct⟩
    refine ⟨totalSamples_eq_some hinuse_eq hinuse_lt hinuseDistinct _, ?_,
      (column_eq_classSum_iff hinuseBytes).mpr hinuseDistinct,
      (column_eq_classSum_iff hallocBytes).mpr hallocDistinct⟩
    have hall := totalSamples_eq_some halloc_eq (by omega) hallocDistinct report.timing
    rw [Int.toNat_natCast] at hall
    exact hall

end HeapReport

/-- Two callsites of one function, in use. -/
def growState : HeapState :=
  { HeapState.new with
    callsites := (Table.empty.insert 1 ⟨[4096], 1, 512, 1, 512⟩).insert 2 ⟨[4112], 1, 1024, 1, 1024⟩
    nextCallsiteId := 3 }

/-- Every address of the function has its name. -/
def growSymbols (_ : ℕ) : List Symbol := [⟨some "grow".toUTF8.toList, none, none, none⟩]

/-- A snapshot in which the clock does not move between the two records. -/
def growReport : HeapReport := heapReport growSymbols (fun _ => 0) growState 512

/-- 1536 bytes in all, of which the converted reports have those of one callsite. -/
theorem HeapReport.grow_not_conserves :
    growReport.totalInuseBytes = some 1536 ∧ growReport.totalAllocBytes = some 1536 ∧
    growReport.toInuseReport.totalSamples = some 512 ∧
    growReport.toAllocReport.totalSamples = some 512 ∧ ¬growReport.Conserves 1536 1536 := by
  have hinuse : growReport.toInuseReport.totalSamples = some 512 := by decide +kernel
  refine ⟨by decide +kernel, by decide +kernel, hinuse, by decide +kernel, fun h => ?_⟩
  have htotal := h.inuseTotal
  rw [hinuse] at htotal
  exact absurd htotal (by decide)

/-- The clock moves from record to record: nothing is lost. -/
theorem HeapReport.clock_conserves :
    (heapReport growSymbols id growState 512).Conserves 1536 1536 :=
  (conserves_iff (by decide +kernel) (by decide +kernel) (by decide)).mpr (by decide +kernel)

end Rpprof
