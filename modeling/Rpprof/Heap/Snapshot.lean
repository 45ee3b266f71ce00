import Rpprof.Heap.Accounting
import Rpprof.Heap.Conversion

/-!
# Heap reports while threads allocate

`heap_report` holds the read lock of the callsites while it goes through them, and loads the four
counters of a callsite one after the other.  Nobody creates a callsite or clears the table
meanwhile, but samples go on counting, so that the records of a report are of no one moment.
Any number of reports are made at once, between any steps of the threads.

What a report says of the allocations so far still lies between what was counted when it took the
lock and what is counted when it lets go of it; and where no block is moved and nothing is reset,
between the samples that were over then and those that have begun now.

## Main definitions

* `HeapReading.load` — the next load of a report that is being made.
* `Watched.step` — the threads and the reports, one step of one of them at a time.
* `HeapReading.Between` — every callsite has its record, with counters from in between.

## Main results

* `Pool.grown_step` — a step that waits for no report only adds to the counters.
* `Watched.between_of_reach` — **in any run** the records of a report lie in between.
* `Watched.sampled_of_reach` — **in runs of allocations and frees** they lie between the samples.
* `HeapReading.records_of_alone` — a report nobody interrupts is `heapReport` of the tables.
-/

namespace Rpprof

open HeapState (sampleObjects sampleBytes)

variable {Thread : Type}

/-! ### The code -/

/-- The loads of `heap_report` from one callsite, in order, with what was loaded before. -/
inductive LoadStep where
  | allocObjects
  | allocBytes (allocObjects : ℕ)
  | inuseObjects (allocObjects allocBytes : ℕ)
  | inuseBytes (allocObjects allocBytes : ℕ) (inuseObjects : ℤ)
deriving DecidableEq, Repr

/-- A call of `heap_report` that has taken `callsites.read`. -/
structure HeapReading (Thread : Type) where
  /-- The pool when it took the lock. -/
  begun : Pool Thread
  /-- What was read of the callsites it is through with. -/
  records : List CallsiteData
  at_ : LoadStep
  /-- The pool when it let go of the lock. -/
  ended : Option (Pool Thread)

namespace HeapReading

/-- A call that has just taken the lock. -/
def new (now : Pool Thread) : HeapReading Thread := ⟨now, [], .allocObjects, none⟩

/-- The call holds the read lock of the callsites. -/
def reads (r : HeapReading Thread) : Bool := r.ended.isNone

/-- The next load, or the end of the loop over `data_read.values()`. -/
def load (now : Pool Thread) (r : HeapReading Thread) : Option (HeapReading Thread) :=
  match r.ended with
  | some _ => none
  | none =>
    match now.heap.callsites.entries[r.records.length]? with
    | none => some { r with ended := some now }
    | some (_, data) =>
      match r.at_ with
      | .allocObjects => some { r with at_ := .allocBytes data.allocObjects }
      | .allocBytes allocObjects =>
        some { r with at_ := .inuseObjects allocObjects data.allocBytes }
      | .inuseObjects allocObjects allocBytes =>
        some { r with at_ := .inuseBytes allocObjects allocBytes data.inuseObjects }
      | .inuseBytes allocObjects allocBytes inuseObjects => some { r with
          records := r.records ++
            [⟨data.ips, allocObjects, allocBytes, inuseObjects, data.inuseBytes⟩]
          at_ := .allocObjects }

end HeapReading

/-- The step takes the write lock of the callsites. -/
def Pc.writesCallsites : Pc → Bool
  | sampling (.fill _) _ _ _ | resetting .callsites => true
  | _ => false

/-- The move is a step that takes the write lock of the callsites. -/
def Pool.writesCallsites (s : Pool Thread) : Move Thread → Bool
  | .advance t => (s.pc t).writesCallsites
  | _ => false

/-- The threads, and the reports that are made of their heap. -/
structure Watched (Thread : Type) where
  pool : Pool Thread
  reports : List (HeapReading Thread)

/-- A thread makes a move, a report is begun, or one goes on. -/
inductive WatchedMove (Thread : Type) where
  | pool (m : Move Thread)
  | heapReport
  | load (i : ℕ)
deriving DecidableEq, Repr

namespace Watched

section Step

variable [DecidableEq Thread] [Fintype Thread]

/-- One step.  A thread that is about to write the callsites waits for the reports that read
them. -/
def step (s : Watched Thread) : WatchedMove Thread → Option (Watched Thread)
  | .pool m =>
    if s.pool.writesCallsites m && s.reports.any HeapReading.reads then none
    else (s.pool.step m).map fun pool => { s with pool := pool }
  | .heapReport => some { s with reports := s.reports ++ [.new s.pool] }
  | .load i => s.reports[i]?.bind fun r =>
      (r.load s.pool).map fun r' => { s with reports := s.reports.set i r' }

/-- What a step can do: the whole of it. -/
theorem step_cases {s s' : Watched Thread} {m : WatchedMove Thread} (h : s.step m = some s') :
    (∃ move pool, m = .pool move ∧ s.pool.step move = some pool ∧
      (s.pool.writesCallsites move = true → ∀ r ∈ s.reports, r.reads = false) ∧
      s' = { s with pool := pool }) ∨
    (m = .heapReport ∧ s' = { s with reports := s.reports ++ [.new s.pool] }) ∨
    ∃ i r r', m = .load i ∧ s.reports[i]? = some r ∧ r.load s.pool = some r' ∧
      s' = { s with reports := s.reports.set i r' } := by
  cases m with
  | pool move =>
    rw [step, Option.ite_none_left_eq_some, Option.map_eq_some_iff] at h
    obtain ⟨hfree, pool, hstep, rfl⟩ := h
    refine Or.inl ⟨move, pool, rfl, hstep, fun hwrites r hr => ?_, rfl⟩
    rw [hwrites, Bool.true_and, List.any_eq_true] at hfree
    exact Bool.eq_false_iff.mpr fun hreads => hfree ⟨r, hr, hreads⟩
  | heapReport =>
    cases h
    exact Or.inr (Or.inl ⟨rfl, rfl⟩)
  | load i =>
    obtain ⟨r, hr, hload⟩ := Option.bind_eq_some_iff.mp h
    obtain ⟨r', hr', rfl⟩ := Option.map_eq_some_iff.mp hload
    exact Or.inr (Or.inr ⟨i, r, r', rfl, hr, hr', rfl⟩)

end Step

end Watched

/-! ### The counters only grow -/

/-- The data of a callsite after more samples and frees. -/
structure CallsiteData.GrownTo (d d' : CallsiteData) : Prop where
  ips : d'.ips = d.ips
  allocObjects : d.allocObjects ≤ d'.allocObjects
  allocBytes : d.allocBytes ≤ d'.allocBytes

namespace CallsiteData.GrownTo

variable {d d' d'' : CallsiteData}

theorem refl (d : CallsiteData) : d.GrownTo d := ⟨rfl, le_rfl, le_rfl⟩

theorem trans (h : d.GrownTo d') (h' : d'.GrownTo d'') : d.GrownTo d'' :=
  ⟨h'.ips.trans h.ips, h.allocObjects.trans h'.allocObjects, h.allocBytes.trans h'.allocBytes⟩

end CallsiteData.GrownTo

/-- The tables have the same callsites, counted on. -/
structure HeapState.GrownTo (h h' : HeapState) : Prop where
  length : h'.callsites.entries.length = h.callsites.entries.length
  entry : ∀ (j id : ℕ) (d : CallsiteData), h.callsites.entries[j]? = some (id, d) →
    ∃ d', h'.callsites.entries[j]? = some (id, d') ∧ d.GrownTo d'

namespace HeapState.GrownTo

variable {h h' h'' : HeapState}

theorem of_callsites (heq : h'.callsites = h.callsites) : h.GrownTo h' where
  length := by rw [heq]
  entry j id d hd := ⟨d, by rw [heq, hd], CallsiteData.GrownTo.refl d⟩

theorem trans (h₁ : h.GrownTo h') (h₂ : h'.GrownTo h'') : h.GrownTo h'' where
  length := h₂.length.trans h₁.length
  entry j id d hd := by
    obtain ⟨d', hd', hgrown⟩ := h₁.entry j id d hd
    obtain ⟨d'', hd'', hgrown'⟩ := h₂.entry j id d' hd'
    exact ⟨d'', hd'', hgrown.trans hgrown'⟩

/-- One counter is updated. -/
theorem updateCallsite (h : HeapState) (id : ℕ) {f : CallsiteData → CallsiteData}
    (hf : ∀ d : CallsiteData, d.GrownTo (f d)) : h.GrownTo (h.updateCallsite id f) where
  length := List.length_map _
  entry j a d hd := by
    have hmap : (h.updateCallsite id f).callsites.entries[j]? =
        some (Table.modifyEntry id f (a, d)) := by
      rw [HeapState.updateCallsite, Table.modify, List.getElem?_map, hd, Option.map_some]
    rw [hmap, Table.modifyEntry]
    split
    · exact ⟨f d, rfl, hf d⟩
    · exact ⟨d, rfl, CallsiteData.GrownTo.refl d⟩

end HeapState.GrownTo

/-- **A step that takes no write lock of the callsites only adds to their counters.** -/
theorem Pc.Next.grownTo {h h' : HeapState} {mapFree callsitesFree : Bool} {pc pc' : Pc}
    (hnext : pc.Next h mapFree callsitesFree h' pc') (hwrites : pc.writesCallsites = false) :
    h.GrownTo h' := by
  cases hnext with
  | fill hfree => cases hwrites
  | clearCallsites hfree => cases hwrites
  | allocObjects =>
    exact .updateCallsite h _ fun d => ⟨rfl, Nat.le_succ _, le_rfl⟩
  | allocBytes =>
    exact .updateCallsite h _ fun d => ⟨rfl, le_rfl, Nat.le_add_right _ _⟩
  | inuseObjects => exact .updateCallsite h _ fun d => ⟨rfl, le_rfl, le_rfl⟩
  | inuseBytes => exact .updateCallsite h _ fun d => ⟨rfl, le_rfl, le_rfl⟩
  | subObjects => exact .updateCallsite h _ fun d => ⟨rfl, le_rfl, le_rfl⟩
  | subBytes => exact .updateCallsite h _ fun d => ⟨rfl, le_rfl, le_rfl⟩
  | _ => exact .of_callsites rfl

/-- The same for a step of the pool. -/
theorem Pool.grown_step [DecidableEq Thread] [Fintype Thread] {s s' : Pool Thread}
    {m : Move Thread} (h : s.step m = some s') (hwrites : s.writesCallsites m = false) :
    s.heap.GrownTo s'.heap := by
  cases step_spec h with
  | advance hnext => exact hnext.grownTo hwrites
  | _ => exact .of_callsites rfl

/-! ### What a report has read -/

namespace HeapReading

/-- The records are of the first callsites of the table, in order. -/
def Covers (h₀ h : HeapState) (records : List CallsiteData) : Prop :=
  ∀ (j : ℕ) (record : CallsiteData), records[j]? = some record → ∃ id d₀ d,
    h₀.callsites.entries[j]? = some (id, d₀) ∧ h.callsites.entries[j]? = some (id, d) ∧
      d₀.GrownTo record ∧ record.GrownTo d

/-- What was loaded of the next callsite. -/
def Loaded (d₀ d : CallsiteData) : LoadStep → Prop
  | .allocObjects => True
  | .allocBytes allocObjects =>
    d₀.allocObjects ≤ allocObjects ∧ allocObjects ≤ d.allocObjects
  | .inuseObjects allocObjects allocBytes | .inuseBytes allocObjects allocBytes _ =>
    (d₀.allocObjects ≤ allocObjects ∧ allocObjects ≤ d.allocObjects) ∧
      d₀.allocBytes ≤ allocBytes ∧ allocBytes ≤ d.allocBytes

/-- **Every callsite has its record**, in the order of the table, with counters from between the
beginning and the end. -/
structure Between (h₀ h : HeapState) (records : List CallsiteData) : Prop where
  grown : h₀.GrownTo h
  all : records.length = h₀.callsites.entries.length
  covers : Covers h₀ h records

/-- The invariant of a report that is being made. -/
structure Reads (now : Pool Thread) (r : HeapReading Thread) : Prop where
  grown : r.begun.heap.GrownTo now.heap
  covers : Covers r.begun.heap now.heap r.records
  loaded : ∀ id d₀ d, r.begun.heap.callsites.entries[r.records.length]? = some (id, d₀) →
    now.heap.callsites.entries[r.records.length]? = some (id, d) → Loaded d₀ d r.at_

/-- The invariant of a report, at any time. -/
def Sound (now : Pool Thread) (r : HeapReading Thread) : Prop :=
  match r.ended with
  | none => Reads now r
  | some ended => Between r.begun.heap ended.heap r.records

variable {h₀ h h' : HeapState} {records : List CallsiteData} {now now' : Pool Thread}
  {r r' : HeapReading Thread}

theorem Covers.grow (hcovers : Covers h₀ h records) (hgrown : h.GrownTo h') :
    Covers h₀ h' records := by
  intro j record hj
  obtain ⟨id, d₀, d, hd₀, hd, hfrom, hto⟩ := hcovers j record hj
  obtain ⟨d', hd', hgrow⟩ := hgrown.entry j id d hd
  exact ⟨id, d₀, d', hd₀, hd', hfrom, hto.trans hgrow⟩

theorem Loaded.grow {d₀ d d' : CallsiteData} {at_ : LoadStep} (hloaded : Loaded d₀ d at_)
    (hgrown : d.GrownTo d') : Loaded d₀ d' at_ := by
  cases at_ with
  | allocObjects => trivial
  | allocBytes allocObjects => exact ⟨hloaded.1, hloaded.2.trans hgrown.allocObjects⟩
  | inuseObjects allocObjects allocBytes =>
    exact ⟨⟨hloaded.1.1, hloaded.1.2.trans hgrown.allocObjects⟩, hloaded.2.1,
      hloaded.2.2.trans hgrown.allocBytes⟩
  | inuseBytes allocObjects allocBytes inuseObjects =>
    exact ⟨⟨hloaded.1.1, hloaded.1.2.trans hgrown.allocObjects⟩, hloaded.2.1,
      hloaded.2.2.trans hgrown.allocBytes⟩

/-- Other threads count on. -/
theorem Reads.grow (hr : r.Reads now) (hgrown : now.heap.GrownTo now'.heap) : r.Reads now' where
  grown := hr.grown.trans hgrown
  covers := hr.covers.grow hgrown
  loaded id d₀ d' hd₀ hd' := by
    obtain ⟨d, hd, -⟩ := hr.grown.entry _ id d₀ hd₀
    obtain ⟨d'', hd'', hto⟩ := hgrown.entry _ id d hd
    rw [hd', Option.some.injEq, Prod.mk.injEq] at hd''
    obtain ⟨-, rfl⟩ := hd''
    exact (hr.loaded id d₀ d hd₀ hd).grow hto

theorem sound_new (now : Pool Thread) : (new now).Sound now where
  grown := .of_callsites rfl
  covers j record hj := by cases hj
  loaded id d₀ d hd₀ hd := trivial

/-- The record of one more callsite. -/
theorem Covers.concat (hcovers : Covers h₀ h records) {id : ℕ} {d₀ d record : CallsiteData}
    (hd₀ : h₀.callsites.entries[records.length]? = some (id, d₀))
    (hd : h.callsites.entries[records.length]? = some (id, d)) (hfrom : d₀.GrownTo record)
    (hto : record.GrownTo d) : Covers h₀ h (records ++ [record]) := by
  intro j record' hj
  rcases lt_trichotomy j records.length with hlt | rfl | hgt
  · rw [List.getElem?_append_left hlt] at hj
    exact hcovers j record' hj
  · rw [List.getElem?_concat_length, Option.some.injEq] at hj
    subst hj
    exact ⟨id, d₀, d, hd₀, hd, hfrom, hto⟩
  · rw [List.getElem?_eq_none (by rw [List.length_append, List.length_singleton]; omega)] at hj
    cases hj

theorem Covers.length_le (hcovers : Covers h₀ h records) :
    records.length ≤ h₀.callsites.entries.length := by
  cases hlast : records.length with
  | zero => exact Nat.zero_le _
  | succ n =>
    have hn : n < records.length := by omega
    obtain ⟨id, d₀, -, hd₀, -⟩ := hcovers n records[n] (List.getElem?_eq_getElem hn)
    exact (List.getElem?_eq_some_iff.mp hd₀).1

theorem Reads.sound (hr : r.Reads now) (hended : r.ended = none) : r.Sound now := by
  rw [Sound, hended]
  exact hr

/-- One more counter of the callsite is loaded. -/
theorem Reads.loadOne (hr : r.Reads now) {id : ℕ} {d₀ d : CallsiteData} {at_ : LoadStep}
    (hd₀ : r.begun.heap.callsites.entries[r.records.length]? = some (id, d₀))
    (hd : now.heap.callsites.entries[r.records.length]? = some (id, d))
    (hloaded : Loaded d₀ d at_) : Reads now { r with at_ := at_, ended := none } where
  grown := hr.grown
  covers := hr.covers
  loaded id' d₀' d' hd₀' hd' := by
    rw [hd₀] at hd₀'
    rw [hd] at hd'
    cases hd₀'
    cases hd'
    exact hloaded

/-- **A load**: the value is one that the counter has now. -/
theorem Reads.load (hr : r.Reads now) (hended : r.ended = none) (hload : r.load now = some r') :
    r'.Sound now := by
  unfold HeapReading.load at hload
  rw [hended] at hload
  cases hentry : now.heap.callsites.entries[r.records.length]? with
  | none =>
    -- the loop is over
    simp only [hentry, Option.some.injEq] at hload
    subst hload
    have hlength := List.getElem?_eq_none_iff.mp hentry
    rw [hr.grown.length] at hlength
    exact ⟨hr.grown, hr.covers.length_le.antisymm hlength, hr.covers⟩
  | some entry =>
    obtain ⟨id, d⟩ := entry
    have hlt : r.records.length < r.begun.heap.callsites.entries.length := by
      rw [← hr.grown.length]
      exact (List.getElem?_eq_some_iff.mp hentry).1
    obtain ⟨⟨id', d₀⟩, hd₀⟩ :
        ∃ e, r.begun.heap.callsites.entries[r.records.length]? = some e :=
      ⟨_, List.getElem?_eq_getElem hlt⟩
    obtain ⟨d', hd', hto⟩ := hr.grown.entry _ id' d₀ hd₀
    rw [hentry, Option.some.injEq, Prod.mk.injEq] at hd'
    obtain ⟨rfl, rfl⟩ := hd'
    have hloaded := hr.loaded id d₀ d hd₀ hentry
    cases hat : r.at_ with
    | allocObjects =>
      simp only [hat, hentry, Option.some.injEq] at hload
      subst hload
      have hnext : Loaded d₀ d (.allocBytes d.allocObjects) := ⟨hto.allocObjects, le_rfl⟩
      exact (hr.loadOne hd₀ hentry hnext).sound rfl
    | allocBytes allocObjects =>
      rw [hat] at hloaded
      simp only [hat, hentry, Option.some.injEq] at hload
      subst hload
      have hnext : Loaded d₀ d (.inuseObjects allocObjects d.allocBytes) :=
        ⟨hloaded, hto.allocBytes, le_rfl⟩
      exact (hr.loadOne hd₀ hentry hnext).sound rfl
    | inuseObjects allocObjects allocBytes =>
      rw [hat] at hloaded
      simp only [hat, hentry, Option.some.injEq] at hload
      subst hload
      have hnext : Loaded d₀ d (.inuseBytes allocObjects allocBytes d.inuseObjects) := hloaded
      exact (hr.loadOne hd₀ hentry hnext).sound rfl
    | inuseBytes allocObjects allocBytes inuseObjects =>
      -- the record is complete
      rw [hat] at hloaded
      simp only [hat, hentry, Option.some.injEq] at hload
      subst hload
      have hcovers : Covers r.begun.heap now.heap (r.records ++
          [⟨d.ips, allocObjects, allocBytes, inuseObjects, d.inuseBytes⟩]) :=
        hr.covers.concat hd₀ hentry ⟨hto.ips, hloaded.1.1, hloaded.2.1⟩
          ⟨rfl, hloaded.1.2, hloaded.2.2⟩
      have hreads : Reads now { r with
          records := r.records ++
            [⟨d.ips, allocObjects, allocBytes, inuseObjects, d.inuseBytes⟩]
          at_ := .allocObjects
          ended := none } :=
        ⟨hr.grown, hcovers, fun _ _ _ _ _ => trivial⟩
      exact hreads.sound rfl

/-- What a load leaves of the report: when it began, and that it ends now if it does. -/
theorem load_cases (h : r.load now = some r') :
    r.ended = none ∧ r'.begun = r.begun ∧ (r'.ended = none ∨ r'.ended = some now) := by
  unfold load at h
  split at h
  · cases h
  · next hended =>
    refine ⟨hended, ?_⟩
    split at h
    · cases h
      exact ⟨rfl, Or.inr rfl⟩
    · split at h <;> cases h <;> exact ⟨rfl, Or.inl hended⟩

/-! ### What it says of a stack -/

/-- What the records say of a stack. -/
def recorded (counter : CallsiteData → ℕ) (records : List CallsiteData) (ips : List ℕ) : ℕ :=
  (records.map fun d => if d.ips = ips then counter d else 0).sum

/-- What the records say lies between what the tables said. -/
theorem Between.recorded (hbetween : Between h₀ h records)
    {counter : CallsiteData → ℕ} (hcounter : ∀ {d d'}, d.GrownTo d' → counter d ≤ counter d')
    (ips : List ℕ) :
    h₀.counted counter ips ≤ HeapReading.recorded counter records ips ∧
      HeapReading.recorded counter records ips ≤ h.counted counter ips := by
  have hle : ∀ {d d' : CallsiteData}, d.GrownTo d' →
      (if d.ips = ips then counter d else 0) ≤ if d'.ips = ips then counter d' else 0 := by
    intro d d' hto
    rw [hto.ips]
    split
    · exact hcounter hto
    · exact le_rfl
  constructor
  · apply List.sum_map_le_of_getElem? hbetween.all.symm
    intro j e record he hrecord
    obtain ⟨id, d₀, d, hd₀, -, hfrom, -⟩ := hbetween.covers j record hrecord
    rw [hd₀, Option.some.injEq] at he
    rw [← he]
    exact hle hfrom
  · apply List.sum_map_le_of_getElem? (hbetween.all.trans hbetween.grown.length.symm)
    intro j record e hrecord he
    obtain ⟨id, d₀, d, -, hd, -, hto⟩ := hbetween.covers j record hrecord
    rw [hd, Option.some.injEq] at he
    rw [← he]
    exact hle hto

/-- What a report says of the samples: it has one record for a stack, which knows every sample
that was over when the report began, and none that had not begun when it ended. -/
structure Accounts [Fintype Thread] (r : HeapReading Thread) (ended : Pool Thread) : Prop where
  nodup : (r.records.map CallsiteData.ips).Nodup
  objects : ∀ ips,
    sampleObjects ips r.begun.samples ≤
        recorded CallsiteData.allocObjects r.records ips + ∑ t, (r.begun.pc t).samplesPending ips ∧
      recorded CallsiteData.allocObjects r.records ips ≤ sampleObjects ips ended.samples
  bytes : ∀ ips,
    sampleBytes ips r.begun.samples ≤
        recorded CallsiteData.allocBytes r.records ips + ∑ t, (r.begun.pc t).bytesPending ips ∧
      recorded CallsiteData.allocBytes r.records ips ≤ sampleBytes ips ended.samples

/-- The records are of different stacks. -/
theorem Between.nodup {s : Pool Thread} [Fintype Thread] (ho : s.Orderly)
    (hbetween : Between s.heap h records) : (records.map CallsiteData.ips).Nodup := by
  have hentries : (s.heap.callsites.entries.map fun e => e.2.ips).Nodup := by
    rw [List.Nodup, List.pairwise_map]
    refine s.heap.callsites.distinct.imp_of_mem fun {e e'} he he' hne hips => ?_
    have hown : ∀ e ∈ s.heap.callsites.entries, s.heap.stackOf e.1 = some e.2.ips := by
      intro e he
      rw [HeapState.stackOf, Table.get?_of_mem he]
      rfl
    have hstack := hown e he
    rw [hips] at hstack
    rw [ho.unique hstack (hown e' he'), beq_self_eq_true] at hne
    cases hne
  have heq : records.map CallsiteData.ips = s.heap.callsites.entries.map fun e => e.2.ips := by
    apply List.ext_getElem? fun j => ?_
    rw [List.getElem?_map, List.getElem?_map]
    cases hj : records[j]? with
    | none =>
      rw [List.getElem?_eq_none_iff, hbetween.all, ← List.getElem?_eq_none_iff] at hj
      rw [hj]
      rfl
    | some record =>
      obtain ⟨id, d₀, d, hd₀, -, hfrom, -⟩ := hbetween.covers j record hj
      rw [hd₀]
      exact congrArg some hfrom.ips
  rw [heq]
  exact hentries

/-- Counters from in between count the samples in between. -/
theorem Between.accounts [Fintype Thread] {ended : Pool Thread} (hbegun : r.begun.Orderly)
    (hended : ended.Orderly) (hbetween : Between r.begun.heap ended.heap r.records) :
    r.Accounts ended where
  nodup := hbetween.nodup hbegun
  objects ips := by
    obtain ⟨hlow, hhigh⟩ := hbetween.recorded CallsiteData.GrownTo.allocObjects ips
    have hfirst := hbegun.books.allocObjects ips
    have hlast := hended.books.allocObjects ips
    constructor <;> omega
  bytes ips := by
    obtain ⟨hlow, hhigh⟩ := hbetween.recorded CallsiteData.GrownTo.allocBytes ips
    have hfirst := hbegun.books.allocBytes ips
    have hlast := hended.books.allocBytes ips
    constructor <;> omega

/-! ### A report nobody interrupts -/

/-- The loads of a report, one after the other, while nobody else makes a step. -/
def alone (now : Pool Thread) (r : HeapReading Thread) (n : ℕ) : Option (HeapReading Thread) :=
  Machine.run (fun r (_ : Unit) => r.load now) r (List.replicate n ())

/-- `heap_report`, from what was read. -/
def report (resolve : ℕ → List Symbol) (clock : ℕ → ℕ) (records : List CallsiteData)
    (sampleRate : ℕ) : HeapReport where
  records := records.mapIdx fun i d => ⟨⟨resolveIps resolve d.ips, "", 0, clock i⟩,
    d.allocObjects, d.allocBytes, d.inuseObjects, d.inuseBytes⟩
  sampleRate := sampleRate
  timestamp := clock records.length

/-- Four loads read one callsite. -/
theorem alone_callsite (begun : Pool Thread) {e : ℕ × CallsiteData}
    (he : now.heap.callsites.entries[records.length]? = some e) (n : ℕ) :
    alone now ⟨begun, records, .allocObjects, none⟩ (n + 4) =
      alone now ⟨begun, records ++ [e.2], .allocObjects, none⟩ n := by
  obtain ⟨id, d⟩ := e
  simp only [alone, List.replicate_succ, Machine.run_cons, load, he, Option.bind_some]

/-- The loop from the `k`-th callsite on. -/
theorem alone_of_take (begun : Pool Thread) (k : ℕ) :
    ∀ j, j + k = now.heap.callsites.entries.length →
      alone now ⟨begun, (now.heap.callsites.entries.take j).map Prod.snd, .allocObjects, none⟩
          (4 * k + 1) =
        some ⟨begun, now.heap.callsites.entries.map Prod.snd, .allocObjects, some now⟩ := by
  induction k with
  | zero =>
    intro j hj
    have hnone : now.heap.callsites.entries[now.heap.callsites.entries.length]? = none :=
      List.getElem?_eq_none le_rfl
    rw [Nat.add_zero] at hj
    rw [List.take_of_length_le hj.ge]
    simp only [alone, List.replicate_succ, List.replicate_zero, Machine.run_cons, load,
      List.length_map, hnone, Option.bind_some, Machine.run_nil, Nat.mul_zero, Nat.zero_add]
  | succ k ih =>
    intro j hj
    have hlt : j < now.heap.callsites.entries.length := by omega
    have hlength : ((now.heap.callsites.entries.take j).map Prod.snd).length = j := by
      rw [List.length_map, List.length_take, Nat.min_eq_left hlt.le]
    have hentry := List.getElem?_eq_getElem hlt
    rw [show 4 * (k + 1) + 1 = 4 * k + 1 + 4 by omega,
      alone_callsite begun (by rw [hlength]; exact hentry), ← ih (j + 1) (by omega),
      List.take_add_one, hentry, List.map_append]
    rfl

/-- **A report nobody interrupts** is over after its loads, and is `heapReport` of the tables. -/
theorem records_of_alone (now : Pool Thread) :
    ∃ r, alone now (new now) (4 * now.heap.callsites.entries.length + 1) = some r ∧
      r.reads = false ∧
      ∀ resolve clock sampleRate, report resolve clock r.records sampleRate =
        heapReport resolve clock now.heap sampleRate := by
  refine ⟨_, alone_of_take now now.heap.callsites.entries.length 0 (Nat.zero_add _), rfl, ?_⟩
  intro resolve clock sampleRate
  have hrecords : (report resolve clock (now.heap.callsites.entries.map Prod.snd)
      sampleRate).records = (heapReport resolve clock now.heap sampleRate).records := by
    apply List.ext_getElem? fun i => ?_
    simp only [report, heapReport, List.getElem?_mapIdx, List.getElem?_map, Option.map_map]
    rfl
  have htimestamp : (report resolve clock (now.heap.callsites.entries.map Prod.snd)
      sampleRate).timestamp = (heapReport resolve clock now.heap sampleRate).timestamp :=
    congrArg clock (List.length_map _)
  rw [report] at hrecords htimestamp ⊢
  rw [heapReport] at hrecords htimestamp ⊢
  rw [HeapReport.mk.injEq]
  exact ⟨hrecords, rfl, htimestamp⟩

end HeapReading

/-! ### Runs -/

namespace Watched

variable [DecidableEq Thread] [Fintype Thread] {s s' : Watched Thread} {m : WatchedMove Thread}

/-- The invariant: every report is sound. -/
def Sound (s : Watched Thread) : Prop := ∀ r ∈ s.reports, r.Sound s.pool

theorem Sound.step (hs : s.Sound) (h : s.step m = some s') : s'.Sound := by
  rcases step_cases h with ⟨move, pool, -, hstep, hfree, rfl⟩ | ⟨-, rfl⟩ |
    ⟨i, r, r', -, hr, hload, rfl⟩
  · intro r hr
    have hold := hs r hr
    rw [HeapReading.Sound] at hold ⊢
    split at hold
    · next hended =>
      -- a thread that writes the callsites would have waited for this report
      have hwrites : s.pool.writesCallsites move = false := by
        refine Bool.eq_false_iff.mpr fun hwrites => ?_
        have hreads := hfree hwrites r hr
        rw [HeapReading.reads, hended] at hreads
        cases hreads
      exact hold.grow (Pool.grown_step hstep hwrites)
    · exact hold
  · intro r hr
    rcases List.mem_append.mp hr with hr | hr
    · exact hs r hr
    · rw [List.mem_singleton.mp hr]
      exact HeapReading.sound_new s.pool
  · intro x hx
    rcases List.mem_or_eq_of_mem_set hx with hx | rfl
    · exact hs x hx
    · have hold := hs r (List.mem_of_getElem? hr)
      cases hended : r.ended with
      | none =>
        rw [HeapReading.Sound, hended] at hold
        exact hold.load hended hload
      | some ended =>
        rw [HeapReading.load, hended] at hload
        cases hload

theorem Sound.of_reach {C : Watched Thread → WatchedMove Thread → Prop} {pool : Pool Thread}
    (h : Machine.Reach Watched.step C ⟨pool, []⟩ s) : s.Sound := by
  refine h.invariant ?_ fun s m s' hs _ hstep => hs.step hstep
  intro r hr
  cases hr

omit [DecidableEq Thread] [Fintype Thread] in
theorem Sound.between (hs : s.Sound) {r : HeapReading Thread} (hr : r ∈ s.reports)
    {ended : Pool Thread} (hended : r.ended = some ended) :
    HeapReading.Between r.begun.heap ended.heap r.records := by
  have hsound := hs r hr
  rw [HeapReading.Sound, hended] at hsound
  exact hsound

/-- **In any run** of the threads and the reports, a report that is over has one record for every
callsite, with counters from between those when it took the lock and those when it let go. -/
theorem between_of_reach {pool : Pool Thread} (h : Machine.Reachable step ⟨pool, []⟩ s) :
    ∀ r ∈ s.reports, ∀ ended, r.ended = some ended →
      HeapReading.Between r.begun.heap ended.heap r.records :=
  fun _ hr _ hended => (Sound.of_reach h).between hr hended

/-- A report is begun while a thread is about to count its sample, and loads one counter before
that, and the others after it. -/
def tornReport : List (WatchedMove Bool) :=
  .pool (.alloc true 4096 1024 [7, 8]) :: (Pool.advances true 11).map .pool ++
    .pool (.alloc false 8192 512 [7, 8]) :: (Pool.advances false 2).map .pool ++
    .heapReport :: .load 0 :: (Pool.advances false 5).map .pool ++ List.replicate 4 (.load 0)

/-- The record of two blocks then says that one was allocated, and two are in use. -/
theorem between_of_reach_tornReport :
    ∃ s : Watched Bool, Machine.run step
        ⟨Pool.init 512 (fun _ => 0) (fun _ => none), []⟩ tornReport = some s ∧
      s.reports.map HeapReading.records = [[⟨[7, 8], 1, 1536, 2, 1536⟩]] ∧
      ∀ r ∈ s.reports, ∀ ended, r.ended = some ended →
        HeapReading.Between r.begun.heap ended.heap r.records := by
  have hend : (Machine.run step ⟨Pool.init 512 (fun _ => 0) (fun _ => none), []⟩ tornReport).map
      (fun s : Watched Bool => s.reports.map HeapReading.records) =
        some [[⟨[7, 8], 1, 1536, 2, 1536⟩]] := by decide +kernel
  obtain ⟨s, hs, hrecords⟩ := Option.map_eq_some_iff.mp hend
  exact ⟨s, hs, hrecords, between_of_reach (Machine.reachable_of_run hs)⟩

/-! ### Runs of allocations and frees -/

/-- The pool was in order whenever a report began or ended. -/
structure Orderly (s : Watched Thread) : Prop where
  pool : s.pool.Orderly
  begun : ∀ r ∈ s.reports, r.begun.Orderly
  ended : ∀ r ∈ s.reports, ∀ e, r.ended = some e → e.Orderly

/-- No thread resets the profiler or moves a block. -/
def allocsAndFrees (s : Watched Thread) : WatchedMove Thread → Prop
  | .pool m => s.pool.allocsAndFrees m
  | _ => True

instance (s : Watched Thread) (m : WatchedMove Thread) : Decidable (s.allocsAndFrees m) :=
  match m with
  | .pool m => inferInstanceAs (Decidable (s.pool.allocsAndFrees m))
  | .heapReport | .load _ => inferInstanceAs (Decidable True)

theorem Orderly.step (ho : s.Orderly) (hm : s.allocsAndFrees m) (h : s.step m = some s') :
    s'.Orderly := by
  rcases step_cases h with ⟨move, pool, rfl, hstep, -, rfl⟩ | ⟨-, rfl⟩ |
    ⟨i, r, r', -, hr, hload, rfl⟩
  · exact ⟨ho.pool.step hm hstep, ho.begun, ho.ended⟩
  · refine ⟨ho.pool, fun r hr => ?_, fun r hr e he => ?_⟩
    · rcases List.mem_append.mp hr with hr | hr
      · exact ho.begun r hr
      · rw [List.mem_singleton.mp hr]
        exact ho.pool
    · rcases List.mem_append.mp hr with hr | hr
      · exact ho.ended r hr e he
      · rw [List.mem_singleton.mp hr] at he
        cases he
  · obtain ⟨-, hbegun, hended⟩ := HeapReading.load_cases hload
    refine ⟨ho.pool, fun x hx => ?_, fun x hx e he => ?_⟩
    · rcases List.mem_or_eq_of_mem_set hx with hx | rfl
      · exact ho.begun x hx
      · rw [hbegun]
        exact ho.begun r (List.mem_of_getElem? hr)
    · rcases List.mem_or_eq_of_mem_set hx with hx | rfl
      · exact ho.ended x hx e he
      · rcases hended with hnone | hnow
        · rw [hnone] at he
          cases he
        · rw [hnow, Option.some.injEq] at he
          exact he ▸ ho.pool

/-- **In runs of allocations and frees** from the start, a report that is over accounts for the
samples of every stack: for all that were over when it took the lock, and for none that had not
begun when it let go. -/
theorem sampled_of_reach (rate : ℕ) (bytesLeft : Thread → ℤ) (sizes : ℕ → Option ℕ)
    (h : Machine.Reach step allocsAndFrees ⟨Pool.init rate bytesLeft sizes, []⟩ s) :
    ∀ r ∈ s.reports, ∀ ended, r.ended = some ended → r.Accounts ended := by
  have horderly : s.Orderly := by
    refine h.invariant ⟨Pool.Orderly.init rate bytesLeft sizes, ?_, ?_⟩
      fun s m s' hs hm hstep => hs.step hm hstep
    · intro r hr
      cases hr
    · intro r hr
      cases hr
  intro r hr ended hended
  exact HeapReading.Between.accounts (horderly.begun r hr) (horderly.ended r hr ended hended)
    ((Sound.of_reach h).between hr hended)

theorem sampled_of_reach_tornReport :
    ∃ s : Watched Bool, Machine.run step
        ⟨Pool.init 512 (fun _ => 0) (fun _ => none), []⟩ tornReport = some s ∧
      s.reports.map HeapReading.reads = [false] ∧
      ∀ r ∈ s.reports, ∀ ended, r.ended = some ended → r.Accounts ended := by
  have hall : Machine.Throughout step allocsAndFrees
      ⟨Pool.init 512 (fun _ => 0) (fun _ => none), []⟩ tornReport := by decide +kernel
  have hend : (Machine.run step ⟨Pool.init 512 (fun _ => 0) (fun _ => none), []⟩ tornReport).map
      (fun s : Watched Bool => s.reports.map HeapReading.reads) = some [false] := by
    decide +kernel
  obtain ⟨s, hs, hreads⟩ := Option.map_eq_some_iff.mp hend
  exact ⟨s, hs, hreads, sampled_of_reach 512 (fun _ => 0) (fun _ => none)
    (Machine.Reach.of_throughout hall hs)⟩

end Watched

end Rpprof
