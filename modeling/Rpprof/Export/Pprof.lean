import Rpprof.Export.Written
import Rpprof.Heap.Report

/-!
# Reports as pprof profiles

Both exports collect the strings, write the stacks and add what describes the profile as a
whole.  A report's samples have a count and the time this stands for at the frequency of
the timer; a heap report's have objects and bytes, those allocated and those in use.
Arithmetic is that of 64-bit integers, where an overflow and a division by zero panic.

## Main definitions

* `Report.pprof`, `HeapReport.pprof` — the code.
* `Report.Shows`, `HeapReport.Shows` — what a profile of it consists of.

## Main results

* `Report.pprof_spec`, `HeapReport.pprof_spec` — what a profile that is returned consists of.
* `Report.entries_of_pprof` — **a report is read back from its profile**.
* `HeapReport.records_of_pprof` — **and a heap report from its own**.
-/

namespace Rpprof

open Protos

/-! ### 64-bit integers -/

/-- `x as i64`. -/
def asI64 (x : ℤ) : ℤ := x.bmod (2 ^ 64)

/-- A product of `i64`. -/
def i64Mul (a b : ℤ) : Option ℤ := checkedI64 (a * b)

/-- A quotient of `i64`, toward zero; `none` is also the panic of a division by zero. -/
def i64Div (a b : ℤ) : Option ℤ := if b = 0 then none else checkedI64 (a.tdiv b)

/-- `duration_since(UNIX_EPOCH)` or a duration, `.as_nanos() as i64`, of microseconds. -/
def asNanos (micros : ℕ) : ℤ := asI64 (micros * 1000)

/-! ### The exports -/

section Exports

variable (demangle : String → String) (strings : Table String ℕ)

/-- A `protos::ValueType`. -/
def valueType (ty unit : String) : Option ValueType := do
  let ty ← stringIndex strings ty
  let unit ← stringIndex strings unit
  some { ty := ty, unit := unit }

namespace Report

/-- `missed_comment`. -/
def missedComment (report : Report) : String :=
  "missed samples due to lock contention: " ++ toString report.missedSamples

/-- `dedup_str`: what is inserted. -/
def dedupStr (report : Report) : List String :=
  (report.data.entries.flatMap fun e => stackStrings demangle e.1) ++
    ["samples", "count", "cpu", "nanoseconds", "thread", report.missedComment]

/-- The sample of one entry, for a frequency. -/
def sample (frequency : ℤ) (e : Frames × ℤ) (locs : List ℕ) : Option Sample := do
  let key ← stringIndex strings "thread"
  let str ← stringIndex strings e.1.threadNameOrId
  let nanos ← i64Mul e.2 1000000000
  let time ← i64Div nanos frequency
  some { locationId := locs, value := [e.2, time], label := [{ key := key, str := str }] }

/-- `Report::pprof`. -/
def pprof (order : SetOrder) (report : Report) : Option Profile := do
  let strTbl := stringTable order (report.dedupStr demangle)
  let strings := Table.ofIndices strTbl
  let (t, samples) ← encodeRows demangle strings Prod.fst
    (sample strings report.timing.frequency) Tables.new report.data.entries
  let samplesValue ← valueType strings "samples" "count"
  let timeValue ← valueType strings "cpu" "nanoseconds"
  let missedCommentIdx ← stringIndex strings report.missedComment
  let period ← i64Div 1000000000 report.timing.frequency
  some
    { sampleType := [samplesValue, timeValue]
      sample := samples
      stringTable := strTbl
      function := t.fnTbl
      location := t.locTbl
      timeNanos := asNanos report.timing.startTime
      durationNanos := asNanos report.timing.duration
      periodType := some timeValue
      period := period
      comment := [missedCommentIdx] }

end Report

namespace HeapReport

/-- `dedup_str`: what is inserted. -/
def dedupStr (report : HeapReport) : List String :=
  (report.records.flatMap fun r => stackStrings demangle r.frames) ++
    ["alloc_objects", "alloc_space", "inuse_objects", "inuse_space", "count", "bytes", "space"]

/-- The sample of one record. -/
def sample (r : HeapRecord) (locs : List ℕ) : Option Sample :=
  some
    { locationId := locs
      value := [asI64 r.allocObjects, asI64 r.allocBytes, max r.inuseObjects 0,
        max r.inuseBytes 0] }

/-- `HeapReport::pprof`. -/
def pprof (order : SetOrder) (report : HeapReport) : Option Profile := do
  let strTbl := stringTable order (report.dedupStr demangle)
  let strings := Table.ofIndices strTbl
  let (t, samples) ← encodeRows demangle strings HeapRecord.frames sample Tables.new
    report.records
  let allocObjects ← valueType strings "alloc_objects" "count"
  let allocSpace ← valueType strings "alloc_space" "bytes"
  let inuseObjects ← valueType strings "inuse_objects" "count"
  let inuseSpace ← valueType strings "inuse_space" "bytes"
  let periodType ← valueType strings "space" "bytes"
  some
    { sampleType := [allocObjects, allocSpace, inuseObjects, inuseSpace]
      sample := samples
      stringTable := strTbl
      function := t.fnTbl
      location := t.locTbl
      timeNanos := asNanos report.timestamp
      periodType := some periodType
      period := asI64 report.sampleRate }

end HeapReport

end Exports

/-! ### What a profile consists of -/

section Specs

variable {demangle : String → String} {order : SetOrder} {p : Profile} {tbl : List String}

theorem valueType_eq {ty unit : String} (hty : ty ∈ tbl) (hunit : unit ∈ tbl) :
    valueType (Table.ofIndices tbl) ty unit =
      some ⟨index (Table.ofIndices tbl) ty, index (Table.ofIndices tbl) unit⟩ := by
  rw [valueType, stringIndex_eq hty, stringIndex_eq hunit]
  rfl

/-- A type and a unit of the table are read back. -/
theorem valueType_read {ty unit : String} (hty : ty ∈ p.stringTable)
    (hunit : unit ∈ p.stringTable) :
    p.valueType ⟨index (Table.ofIndices p.stringTable) ty,
      index (Table.ofIndices p.stringTable) unit⟩ = some (ty, unit) := by
  rw [Profile.valueType, string_index hty, string_index hunit]
  rfl

theorem asI64_of_lt {n : ℕ} (h : n < 2 ^ 63) : asI64 n = n := by
  rw [asI64]
  exact Int.bmod_eq_of_le (by omega) (by omega)

theorem i64Mul_eq {a b : ℤ} (hlow : -2 ^ 63 ≤ a * b) (hhigh : a * b < 2 ^ 63) :
    i64Mul a b = some (a * b) := by
  rw [i64Mul, checkedI64, if_pos ⟨hlow, hhigh⟩]

theorem mul_of_i64Mul {a b c : ℤ} (h : i64Mul a b = some c) :
    c = a * b ∧ -2 ^ 63 ≤ c ∧ c < 2 ^ 63 := by
  rw [i64Mul, checkedI64, Option.ite_none_right_eq_some, Option.some.injEq] at h
  obtain ⟨hrange, rfl⟩ := h
  exact ⟨rfl, hrange⟩

/-- A quotient by a positive divisor does not overflow. -/
theorem i64Div_of_pos {a b : ℤ} (hb : 0 < b) (hlow : -2 ^ 63 ≤ a) (hhigh : a < 2 ^ 63) :
    i64Div a b = some (a.tdiv b) := by
  have hne : b ≠ 0 := by omega
  have habs := Int.natAbs_tdiv_le_natAbs a b
  rw [i64Div, if_neg hne, checkedI64, if_pos]
  rcases le_total 0 a with hpos | hneg
  · have hquot := Int.tdiv_nonneg hpos hb.le
    omega
  · have hquot := Int.tdiv_nonneg (Int.neg_nonneg_of_nonpos hneg) hb.le
    rw [Int.neg_tdiv] at hquot
    omega

namespace Report

variable {report : Report}

/-- What a returned profile consists of. -/
structure Shows (demangle : String → String) (report : Report) (p : Profile) : Prop where
  written : ∃ firsts, Written demangle (report.data.entries.map Prod.fst) p firsts
  own : ∀ i ∈ p.ownIndices, p.InTable i
  types : p.sampleType.length = 2
  /-- Each entry has a sample with its thread, its count and the time of this count. -/
  samples : List.Forall₂ (fun e smp => p.thread smp = some e.1.threadNameOrId ∧
    ∃ nanos time, i64Mul e.2 1000000000 = some nanos ∧
      i64Div nanos report.timing.frequency = some time ∧ smp.value = [e.2, time])
    report.data.entries p.sample
  period : i64Div 1000000000 report.timing.frequency = some p.period

/-- The string table of a report. -/
def strTbl (demangle : String → String) (order : SetOrder) (report : Report) : List String :=
  stringTable order (report.dedupStr demangle)

theorem mem_strTbl_of_entry {e : Frames × ℤ} (he : e ∈ report.data.entries) {text : String}
    (h : text ∈ stackStrings demangle e.1) : text ∈ report.strTbl demangle order :=
  mem_stringTable (List.mem_append_left _ (List.mem_flatMap.mpr ⟨e, he, h⟩))

theorem mem_strTbl_of_constant {text : String}
    (h : text ∈ ["samples", "count", "cpu", "nanoseconds", "thread", report.missedComment]) :
    text ∈ report.strTbl demangle order :=
  mem_stringTable (List.mem_append_right _ h)

/-- The profile that is put together at the end. -/
def profile (tbl : List String) (report : Report) (t : Tables) (samples : List Sample)
    (period : ℤ) : Profile :=
  let place := index (Table.ofIndices tbl)
  { sampleType := [⟨place "samples", place "count"⟩, ⟨place "cpu", place "nanoseconds"⟩]
    sample := samples
    stringTable := tbl
    function := t.fnTbl
    location := t.locTbl
    timeNanos := asNanos report.timing.startTime
    durationNanos := asNanos report.timing.duration
    periodType := some ⟨place "cpu", place "nanoseconds"⟩
    period := period
    comment := [place report.missedComment] }

/-- No lookup of a string fails: what is left to fail are the samples and the period. -/
theorem pprof_eq_some : report.pprof demangle order = some p ↔ ∃ t samples period,
    encodeRows demangle (Table.ofIndices (report.strTbl demangle order)) Prod.fst
      (sample (Table.ofIndices (report.strTbl demangle order)) report.timing.frequency)
      Tables.new report.data.entries = some (t, samples) ∧
    i64Div 1000000000 report.timing.frequency = some period ∧
    report.profile (report.strTbl demangle order) t samples period = p := by
  have hconst : ∀ text ∈ ["samples", "count", "cpu", "nanoseconds", "thread",
      report.missedComment], text ∈ stringTable order (report.dedupStr demangle) :=
    fun text htext => mem_strTbl_of_constant htext
  simp only [pprof, valueType_eq (hconst "samples" (by simp)) (hconst "count" (by simp)),
    valueType_eq (hconst "cpu" (by simp)) (hconst "nanoseconds" (by simp)),
    stringIndex_eq (hconst report.missedComment (by simp)), Option.bind_eq_bind, Option.bind_some,
    Option.bind_eq_some_iff, Prod.exists, Option.some.injEq]
  constructor
  · rintro ⟨t, samples, hrun, period, hperiod, hp⟩
    exact ⟨t, samples, period, hrun, hperiod, hp⟩
  · rintro ⟨t, samples, period, hrun, hperiod, hp⟩
    exact ⟨t, samples, hrun, period, hperiod, hp⟩

/-- What the loop makes of an entry. -/
theorem sample_eq_some {frequency : ℤ} {e : Frames × ℤ} {locs : List ℕ} {smp : Sample}
    (hthread : "thread" ∈ tbl) (hname : e.1.threadNameOrId ∈ tbl) :
    sample (Table.ofIndices tbl) frequency e locs = some smp ↔
      ∃ nanos time, i64Mul e.2 1000000000 = some nanos ∧ i64Div nanos frequency = some time ∧
        smp = { locationId := locs, value := [e.2, time],
                label := [{ key := index (Table.ofIndices tbl) "thread",
                            str := index (Table.ofIndices tbl) e.1.threadNameOrId }] } := by
  simp only [sample, stringIndex_eq hthread, stringIndex_eq hname, Option.bind_eq_bind,
    Option.bind_some, Option.bind_eq_some_iff, Option.some.injEq]
  constructor
  · rintro ⟨nanos, hnanos, time, htime, rfl⟩
    exact ⟨nanos, time, hnanos, htime, rfl⟩
  · rintro ⟨nanos, time, hnanos, htime, rfl⟩
    exact ⟨nanos, hnanos, time, htime, rfl⟩

/-- The locations of a sample are those it is made with. -/
theorem locationId_sample {strings : Table String ℕ} {frequency : ℤ} {e : Frames × ℤ}
    {locs : List ℕ} {smp : Sample} (h : sample strings frequency e locs = some smp) :
    smp.locationId = locs := by
  simp only [sample, Option.bind_eq_bind, Option.bind_eq_some_iff, Option.some.injEq] at h
  obtain ⟨key, -, str, -, nanos, -, time, -, rfl⟩ := h
  rfl

/-- The places a report's profile mentions, other than in its functions. -/
theorem inTable_own {t : Tables} {samples : List Sample} {period : ℤ}
    (hp : report.profile (report.strTbl demangle order) t samples period = p)
    (hlabels : ∀ s ∈ samples, ∀ l ∈ s.label,
      p.InTable l.key ∧ p.InTable l.str ∧ p.InTable l.numUnit) :
    ∀ i ∈ p.ownIndices, p.InTable i := by
  subst hp
  have hplace : ∀ text ∈ ["samples", "count", "cpu", "nanoseconds", "thread",
      report.missedComment], (report.profile (report.strTbl demangle order) t samples
        period).InTable (index (Table.ofIndices (report.strTbl demangle order)) text) :=
    fun text htext => inTable_index (mem_strTbl_of_constant htext)
  have hzero := Profile.inTable_zero (p := report.profile (report.strTbl demangle order) t samples
    period) rfl
  have htime := And.intro (hplace "cpu" (by simp)) (hplace "nanoseconds" (by simp))
  apply Profile.inTable_of_mem_ownIndices
  · intro v hv
    rcases List.mem_cons.mp hv with rfl | hv
    · exact ⟨hplace "samples" (by simp), hplace "count" (by simp)⟩
    · rw [List.mem_singleton.mp hv]
      exact htime
  · exact hlabels
  · exact ⟨hzero, hzero⟩
  · intro v hv
    rw [← Option.some.inj hv]
    exact htime
  · intro i hi
    rw [List.mem_singleton.mp hi]
    exact hplace report.missedComment (by simp)
  · exact hzero

/-- **What a returned profile consists of.** -/
theorem pprof_spec (h : report.pprof demangle order = some p) : report.Shows demangle p := by
  obtain ⟨t, samples, period, hrun, hperiod, hp⟩ := pprof_eq_some.mp h
  have hstr : ∀ e ∈ report.data.entries, ∀ text ∈ stackStrings demangle e.1,
      text ∈ report.strTbl demangle order := fun e he text htext => mem_strTbl_of_entry he htext
  have htbl : p.stringTable = report.strTbl demangle order := by rw [← hp]; rfl
  have hsmp : p.sample = samples := by rw [← hp]; rfl
  obtain ⟨hwritten, hsamples⟩ := written_of_encodeRows hrun (fun _ _ _ => locationId_sample) rfl
    hstr htbl (by rw [← hp]; rfl) (by rw [← hp]; rfl) hsmp
  have hthread : "thread" ∈ p.stringTable := by
    rw [htbl]
    exact mem_strTbl_of_constant (by simp)
  rw [← htbl] at hstr hsamples
  have hname : ∀ e ∈ report.data.entries, e.1.threadNameOrId ∈ p.stringTable :=
    fun e he => hstr e he _ List.mem_cons_self
  constructor
  · exact hwritten
  · apply inTable_own hp
    rw [← hsmp]
    intro smp hmem l hl
    obtain ⟨e, -, he, locs, hmade⟩ := hsamples.exists_left hmem
    obtain ⟨nanos, time, -, -, rfl⟩ := (sample_eq_some hthread (hname e he)).mp hmade
    rw [List.mem_singleton.mp hl]
    obtain ⟨firsts, hw⟩ := hwritten
    exact ⟨inTable_index hthread, inTable_index (hname e he), Profile.inTable_zero hw.empty⟩
  · rw [← hp]
    rfl
  · refine hsamples.imp fun e smp hrow => ?_
    obtain ⟨he, locs, hmade⟩ := hrow
    obtain ⟨nanos, time, hnanos, htime, rfl⟩ := (sample_eq_some hthread (hname e he)).mp hmade
    refine ⟨?_, nanos, time, hnanos, htime, rfl⟩
    simp [Profile.thread, string_index hthread, string_index (hname e he)]
  · rw [← hp]
    exact hperiod

/-- A profile is returned if every count has a time and the frequency a period. -/
theorem exists_pprof (demangle : String → String) (order : SetOrder)
    (htime : ∀ e ∈ report.data.entries, ∃ nanos time,
      i64Mul e.2 1000000000 = some nanos ∧ i64Div nanos report.timing.frequency = some time)
    (hperiod : ∃ period, i64Div 1000000000 report.timing.frequency = some period) :
    ∃ p, report.pprof demangle order = some p := by
  have havail : ∀ e ∈ report.data.entries, ∀ s ∈ e.1.symbols,
      Available demangle (Table.ofIndices (report.strTbl demangle order)) s := by
    intro e he s hs text htext
    exact ⟨_, stringIndex_eq (mem_strTbl_of_entry he (mem_stackStrings hs htext))⟩
  have hmade : ∀ e ∈ report.data.entries, ∀ locs, ∃ smp, sample
      (Table.ofIndices (report.strTbl demangle order)) report.timing.frequency e locs =
        some smp := by
    intro e he locs
    obtain ⟨nanos, time, hnanos, hdiv⟩ := htime e he
    exact ⟨_, (sample_eq_some (mem_strTbl_of_constant (by simp))
      (mem_strTbl_of_entry he List.mem_cons_self)).mpr ⟨nanos, time, hnanos, hdiv, rfl⟩⟩
  obtain ⟨⟨t, samples⟩, hrun⟩ := exists_encodeRows _ Encodes.new havail hmade
  obtain ⟨period, hdiv⟩ := hperiod
  exact ⟨_, pprof_eq_some.mpr ⟨t, samples, period, hrun, hdiv, rfl⟩⟩

/-- **A report is read back from its profile**, entry by entry, where no count is too large
to be turned into a time. -/
theorem entries_of_pprof (demangle : String → String) (order : SetOrder) (report : Report)
    (hfrequency : 0 < report.timing.frequency)
    (hcount : ∀ e ∈ report.data.entries, -2 ^ 63 ≤ e.2 * 1000000000 ∧ e.2 * 1000000000 < 2 ^ 63) :
    ∃ p, report.pprof demangle order = some p ∧ p.WellFormed ∧
      p.sample.mapM p.entry = some (report.data.entries.map fun e =>
        (e.1.threadNameOrId, e.1.names demangle, e.2)) := by
  have htime : ∀ e ∈ report.data.entries, ∃ nanos time, i64Mul e.2 1000000000 = some nanos ∧
      i64Div nanos report.timing.frequency = some time := by
    intro e he
    obtain ⟨hlow, hhigh⟩ := hcount e he
    exact ⟨_, _, i64Mul_eq hlow hhigh, i64Div_of_pos hfrequency hlow hhigh⟩
  have hperiod := i64Div_of_pos (a := 1000000000) hfrequency (by decide) (by decide)
  obtain ⟨p, hp⟩ := exists_pprof demangle order htime ⟨_, hperiod⟩
  have hshows := pprof_spec hp
  obtain ⟨firsts, hw⟩ := hshows.written
  refine ⟨p, hp, hw.wellFormed hshows.own fun smp hsmp => ?_, ?_⟩
  · obtain ⟨e, -, -, nanos, time, -, -, hvalue⟩ := hshows.samples.exists_left hsmp
    rw [hvalue, hshows.types]
    rfl
  · have hnames := hw.names
    rw [List.forall₂_map_left_iff] at hnames
    rw [List.mapM_eq_some_iff, List.forall₂_map_right_iff]
    refine (List.Forall₂.mp (fun e smp hrow hstack => ?_) hshows.samples hnames).flip
    obtain ⟨hthread, nanos, time, -, -, hvalue⟩ := hrow
    show p.entry smp = some (e.1.threadNameOrId, e.1.names demangle, e.2)
    rw [Profile.entry, hthread, hstack, hvalue]
    rfl

end Report

namespace HeapReport

variable {report : HeapReport}

/-- What the profile of a heap report consists of. -/
structure Shows (demangle : String → String) (report : HeapReport) (p : Profile) : Prop where
  written : ∃ firsts, Written demangle (report.records.map HeapRecord.frames) p firsts
  own : ∀ i ∈ p.ownIndices, p.InTable i
  types : p.sampleType.mapM p.valueType = some [("alloc_objects", "count"),
    ("alloc_space", "bytes"), ("inuse_objects", "count"), ("inuse_space", "bytes")]
  samples : List.Forall₂ (fun r smp => smp.value = [asI64 r.allocObjects, asI64 r.allocBytes,
    max r.inuseObjects 0, max r.inuseBytes 0]) report.records p.sample

/-- The string table of a heap report. -/
def strTbl (demangle : String → String) (order : SetOrder) (report : HeapReport) : List String :=
  stringTable order (report.dedupStr demangle)

theorem mem_strTbl_of_record {r : HeapRecord} (hr : r ∈ report.records) {text : String}
    (h : text ∈ stackStrings demangle r.frames) : text ∈ report.strTbl demangle order :=
  mem_stringTable (List.mem_append_left _ (List.mem_flatMap.mpr ⟨r, hr, h⟩))

theorem mem_strTbl_of_constant {text : String} (h : text ∈ ["alloc_objects", "alloc_space",
      "inuse_objects", "inuse_space", "count", "bytes", "space"]) :
    text ∈ report.strTbl demangle order :=
  mem_stringTable (List.mem_append_right _ h)

/-- The profile that is put together at the end. -/
def profile (tbl : List String) (report : HeapReport) (t : Tables) (samples : List Sample) :
    Profile :=
  let place := index (Table.ofIndices tbl)
  { sampleType := [⟨place "alloc_objects", place "count"⟩, ⟨place "alloc_space", place "bytes"⟩,
      ⟨place "inuse_objects", place "count"⟩, ⟨place "inuse_space", place "bytes"⟩]
    sample := samples
    stringTable := tbl
    function := t.fnTbl
    location := t.locTbl
    timeNanos := asNanos report.timestamp
    periodType := some ⟨place "space", place "bytes"⟩
    period := asI64 report.sampleRate }

/-- No lookup of a string fails, and nothing else can. -/
theorem pprof_eq_some : report.pprof demangle order = some p ↔ ∃ t samples,
    encodeRows demangle (Table.ofIndices (report.strTbl demangle order)) HeapRecord.frames sample
      Tables.new report.records = some (t, samples) ∧
    report.profile (report.strTbl demangle order) t samples = p := by
  have hconst : ∀ text ∈ ["alloc_objects", "alloc_space", "inuse_objects", "inuse_space", "count",
      "bytes", "space"], text ∈ stringTable order (report.dedupStr demangle) :=
    fun text htext => mem_strTbl_of_constant htext
  have hcount := hconst "count" (by simp)
  have hbytes := hconst "bytes" (by simp)
  simp only [pprof, valueType_eq (hconst "alloc_objects" (by simp)) hcount,
    valueType_eq (hconst "alloc_space" (by simp)) hbytes,
    valueType_eq (hconst "inuse_objects" (by simp)) hcount,
    valueType_eq (hconst "inuse_space" (by simp)) hbytes,
    valueType_eq (hconst "space" (by simp)) hbytes, Option.bind_eq_bind, Option.bind_some,
    Option.bind_eq_some_iff, Prod.exists, Option.some.injEq]
  rfl

/-- The places a heap report's profile mentions, other than in its functions. -/
theorem inTable_own {t : Tables} {samples : List Sample}
    (hp : report.profile (report.strTbl demangle order) t samples = p)
    (hlabels : ∀ s ∈ samples, s.label = []) : ∀ i ∈ p.ownIndices, p.InTable i := by
  subst hp
  have hplace : ∀ text ∈ ["alloc_objects", "alloc_space", "inuse_objects", "inuse_space", "count",
      "bytes", "space"], (report.profile (report.strTbl demangle order) t samples).InTable
        (index (Table.ofIndices (report.strTbl demangle order)) text) :=
    fun text htext => inTable_index (mem_strTbl_of_constant htext)
  have hzero := Profile.inTable_zero (p := report.profile (report.strTbl demangle order) t samples)
    rfl
  have hcount := hplace "count" (by simp)
  have hbytes := hplace "bytes" (by simp)
  apply Profile.inTable_of_mem_ownIndices
  · intro v hv
    simp only [profile, List.mem_cons, List.not_mem_nil, or_false] at hv
    rcases hv with rfl | rfl | rfl | rfl
    · exact ⟨hplace "alloc_objects" (by simp), hcount⟩
    · exact ⟨hplace "alloc_space" (by simp), hbytes⟩
    · exact ⟨hplace "inuse_objects" (by simp), hcount⟩
    · exact ⟨hplace "inuse_space" (by simp), hbytes⟩
  · intro s hs l hl
    rw [hlabels s hs] at hl
    cases hl
  · exact ⟨hzero, hzero⟩
  · intro v hv
    rw [← Option.some.inj hv]
    exact ⟨hplace "space" (by simp), hbytes⟩
  · intro i hi
    cases hi
  · exact hzero

/-- **What a returned profile consists of.** -/
theorem pprof_spec (h : report.pprof demangle order = some p) : report.Shows demangle p := by
  obtain ⟨t, samples, hrun, hp⟩ := pprof_eq_some.mp h
  have htbl : p.stringTable = report.strTbl demangle order := by rw [← hp]; rfl
  have hsmp : p.sample = samples := by rw [← hp]; rfl
  obtain ⟨hwritten, hsamples⟩ := written_of_encodeRows hrun
    (fun r locs smp hmade => by rw [← Option.some.inj hmade]) rfl
    (fun r hr text htext => mem_strTbl_of_record hr htext) htbl (by rw [← hp]; rfl)
    (by rw [← hp]; rfl) hsmp
  constructor
  · exact hwritten
  · apply inTable_own hp
    rw [← hsmp]
    intro smp hmem
    obtain ⟨r, -, -, locs, hmade⟩ := hsamples.exists_left hmem
    rw [← Option.some.inj hmade]
  · have hconst : ∀ text ∈ ["alloc_objects", "alloc_space", "inuse_objects", "inuse_space",
        "count", "bytes", "space"], text ∈ p.stringTable := by
      intro text htext
      rw [htbl]
      exact mem_strTbl_of_constant htext
    have hcount := hconst "count" (by simp)
    have hbytes := hconst "bytes" (by simp)
    rw [List.mapM_eq_some_iff]
    subst hp
    exact .cons (valueType_read (hconst "alloc_objects" (by simp)) hcount) <|
      .cons (valueType_read (hconst "alloc_space" (by simp)) hbytes) <|
      .cons (valueType_read (hconst "inuse_objects" (by simp)) hcount) <|
      .cons (valueType_read (hconst "inuse_space" (by simp)) hbytes) .nil
  · refine hsamples.imp fun r smp hrow => ?_
    obtain ⟨-, locs, hmade⟩ := hrow
    rw [← Option.some.inj hmade]

/-- A profile of a heap report is always returned. -/
theorem exists_pprof (demangle : String → String) (order : SetOrder) (report : HeapReport) :
    ∃ p, report.pprof demangle order = some p := by
  have havail : ∀ r ∈ report.records, ∀ s ∈ r.frames.symbols,
      Available demangle (Table.ofIndices (report.strTbl demangle order)) s := by
    intro r hr s hs text htext
    exact ⟨_, stringIndex_eq (mem_strTbl_of_record hr (mem_stackStrings hs htext))⟩
  have hmade : ∀ r ∈ report.records, ∀ locs, ∃ smp, sample r locs = some smp :=
    fun r _ locs => ⟨_, rfl⟩
  obtain ⟨⟨t, samples⟩, hrun⟩ := exists_encodeRows _ Encodes.new havail hmade
  exact ⟨_, pprof_eq_some.mpr ⟨t, samples, hrun, rfl⟩⟩

/-- **A heap report is read back from its profile**, record by record. -/
theorem records_of_pprof (demangle : String → String) (order : SetOrder) (report : HeapReport)
    (hsize : ∀ r ∈ report.records, r.allocObjects < 2 ^ 63 ∧ r.allocBytes < 2 ^ 63) :
    ∃ p, report.pprof demangle order = some p ∧ p.WellFormed ∧
      p.sampleType.mapM p.valueType = some [("alloc_objects", "count"), ("alloc_space", "bytes"),
        ("inuse_objects", "count"), ("inuse_space", "bytes")] ∧
      List.Forall₂ (fun r smp => p.names smp = some (r.frames.names demangle) ∧
        smp.value = [(r.allocObjects : ℤ), (r.allocBytes : ℤ), max r.inuseObjects 0,
          max r.inuseBytes 0]) report.records p.sample := by
  obtain ⟨p, hp⟩ := exists_pprof demangle order report
  have hshows := pprof_spec hp
  obtain ⟨firsts, hw⟩ := hshows.written
  have htypes := ((List.mapM_eq_some_iff _ _ _).mp hshows.types).length_eq
  refine ⟨p, hp, hw.wellFormed hshows.own fun smp hsmp => ?_, hshows.types, ?_⟩
  · obtain ⟨r, -, hvalue⟩ := hshows.samples.exists_left hsmp
    rw [hvalue, htypes]
    simp only [List.length_cons, List.length_nil]
  · have hnames := hw.names
    rw [List.forall₂_map_left_iff] at hnames
    have hrows := (List.forall₂_and_left _ _).mpr ⟨hsize, hshows.samples⟩
    refine List.Forall₂.mp (fun r smp hrow hstack => ⟨hstack, ?_⟩) hrows hnames
    obtain ⟨⟨hobjects, hbytes⟩, hvalue⟩ := hrow
    rw [hvalue, asI64_of_lt hobjects, asI64_of_lt hbytes]

end HeapReport

end Specs

/-! ### A recursion -/

/-- A function that called itself, at line 20, and was sampled at line 10. -/
def recursion : Frames where
  frames := [[⟨some "f".toUTF8.toList, none, some 10, none⟩],
    [⟨some "f".toUTF8.toList, none, some 20, none⟩]]
  threadName := "main"
  threadId := 1
  sampleTimestamp := 0

/-- Three samples of it. -/
def recursionReport : Report := ⟨Table.empty.insert recursion 3, ⟨100, 0, 1000000, .cpu⟩, 0⟩

/-- Two callsites with this stack, one of them freed. -/
def recursionHeap : HeapReport := ⟨[⟨recursion, 2, 64, 1, 32⟩, ⟨recursion, 1, 8, 0, 0⟩], 524288, 0⟩

theorem Report.entries_of_pprof_recursion :
    ∃ p, recursionReport.pprof id default = some p ∧ p.WellFormed ∧
      p.sample.mapM p.entry = some (recursionReport.data.entries.map fun e =>
        (e.1.threadNameOrId, e.1.names id, e.2)) :=
  Report.entries_of_pprof id default recursionReport (by decide) (by decide)

theorem HeapReport.records_of_pprof_recursion :
    ∃ p, recursionHeap.pprof id default = some p ∧ p.WellFormed ∧
      p.sampleType.mapM p.valueType = some [("alloc_objects", "count"), ("alloc_space", "bytes"),
        ("inuse_objects", "count"), ("inuse_space", "bytes")] ∧
      List.Forall₂ (fun r smp => p.names smp = some (r.frames.names id) ∧
        smp.value = [(r.allocObjects : ℤ), (r.allocBytes : ℤ), max r.inuseObjects 0,
          max r.inuseBytes 0]) recursionHeap.records p.sample :=
  HeapReport.records_of_pprof id default recursionHeap (by decide)

end Rpprof
