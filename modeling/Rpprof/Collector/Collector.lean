import Rpprof.Collector.HashCounter
import Rpprof.Collector.TempFdArray

/-!
# The collector

The hash counter in front of the temp-file array: what the counter evicts is
pushed into the array, and iteration chains the two.  A key's count may be spread
over its resident entry, evicted entries still buffered and evicted entries in the
file.

A run is a list of calls, each with the answers the operating system gives should
the call have to write.  A call that returns an error does not stop the run: the
signal handler drops the error and goes on.

## Main definitions

* `Collector.add`, `Collector.tryIter` — the code.
* `Collector.addAll` — a run, with the result of every call.
* `Collector.Keeps s calls` — what the collector holds accounts for `calls`.
* `NothingLost` — reading back succeeds and yields what was recorded.

## Main results

* `Collector.addAll_keeps` — what every call keeps, a run keeps.
* `Collector.tally_tryIter` — **no count is lost or doubled** while writes succeed.
* `Collector.nothingLost_iff` — a run loses nothing exactly when none of its flushes
  failed.
-/

namespace Rpprof

variable {T β : Type*} [BEq T] {n : ℕ}

/-- `Collector`. -/
structure Collector (T β : Type*) [BEq T] (n : ℕ) where
  /-- The resident entries. -/
  map : HashCounter T
  /-- The evicted ones. -/
  tempArray : TempFdArray (Entry T) β n

/-- `Entry::default`. -/
instance [Inhabited T] : Inhabited (Entry T) := ⟨⟨default, 0⟩⟩

/-- One call `add(key, count)`, with the answers to the writes it may make. -/
structure AddCall (T : Type*) where
  /-- The key. -/
  key : T
  /-- What is added to its count. -/
  count : ℤ
  /-- What `write` answers during this call. -/
  writes : List WriteResult

/-- The sum of the counts that the calls pass for `k`. -/
def added (k : T) (calls : List (AddCall T)) : ℤ :=
  (calls.map fun c => if c.key == k then c.count else 0).sum

theorem added_concat (k : T) (calls : List (AddCall T)) (c : AddCall T) :
    added k (calls ++ [c]) = added k calls + if c.key == k then c.count else 0 := by
  simp [added]

namespace Collector

/-- `Collector::new`. -/
def new [Inhabited T] : Collector T β n := ⟨HashCounter.default, TempFdArray.new⟩

variable [EquivBEq T] [MemImage β (Entry T)] [NeZero n] (hash : T → ℕ)

/-- `Collector::add`: the counter first, then what it evicted. -/
def add (s : Collector T β n) (c : AddCall T) : Collector T β n × Except IoError Unit :=
  match s.map.add hash c.key c.count with
  | (map, some evict) =>
    let r := s.tempArray.push c.writes evict
    (⟨map, r.1⟩, r.2)
  | (map, none) => (⟨map, s.tempArray⟩, .ok ())

omit [EquivBEq T] [NeZero n] in
/-- `Collector::try_iter`: the resident entries, then the evicted ones. -/
def tryIter (s : Collector T β n) : Except IoError (List (Entry T)) :=
  match s.tempArray.tryIter with
  | .error e => .error e
  | .ok it => .ok (s.map.iter ++ it.toList)

/-- A run of calls, with the result each returned. -/
def addAll (s : Collector T β n) :
    List (AddCall T) → Collector T β n × List (AddCall T × Except IoError Unit)
  | [] => (s, [])
  | c :: calls =>
    let r := s.add hash c
    let rest := addAll r.1 calls
    (rest.1, (c, r.2) :: rest.2)

/-- What one `add` can do: keep everything resident, or push what was evicted. -/
theorem add_cases (s : Collector T β n) (c : AddCall T) :
    ((s.map.add hash c.key c.count).2 = none ∧ (s.add hash c).2 = .ok () ∧
      (s.add hash c).1 = ⟨(s.map.add hash c.key c.count).1, s.tempArray⟩) ∨
    ∃ evict, (s.map.add hash c.key c.count).2 = some evict ∧
      (s.add hash c).2 = (s.tempArray.push c.writes evict).2 ∧
      (s.add hash c).1 =
        ⟨(s.map.add hash c.key c.count).1, (s.tempArray.push c.writes evict).1⟩ := by
  unfold add
  rcases h : s.map.add hash c.key c.count with ⟨map, evict⟩
  cases evict with
  | none => exact Or.inl ⟨rfl, rfl, rfl⟩
  | some evict => exact Or.inr ⟨evict, rfl, rfl, rfl⟩

theorem addAll_append (s : Collector T β n) (calls calls' : List (AddCall T)) :
    s.addAll hash (calls ++ calls') =
      (((s.addAll hash calls).1.addAll hash calls').1,
        (s.addAll hash calls).2 ++ ((s.addAll hash calls).1.addAll hash calls').2) := by
  induction calls generalizing s with
  | nil => rfl
  | cons c calls ih => simp only [List.cons_append, addAll, ih]

/-- **The run rule.**  What a call that returns `Ok` keeps true of the collector and the calls
made so far, a run of such calls keeps true. -/
theorem addAll_keeps {P : Collector T β n → List (AddCall T) → Prop}
    (hadd : ∀ s before c, P s before → (s.add hash c).2 = .ok () →
      P (s.add hash c).1 (before ++ [c]))
    {calls : List (AddCall T)} : ∀ {s : Collector T β n} {before : List (AddCall T)}, P s before →
      (∀ p ∈ (s.addAll hash calls).2, p.2 = .ok ()) →
      P (s.addAll hash calls).1 (before ++ calls) := by
  induction calls with
  | nil =>
    intro s before h _
    rw [List.append_nil]
    exact h
  | cons c calls ih =>
    intro s before h hok
    simp only [addAll, List.forall_mem_cons] at hok ⊢
    have := ih (hadd s before c h hok.1) hok.2
    rwa [List.append_assoc, List.singleton_append] at this

/-! ### While writes succeed -/

/-- An entry that stands for calls really made: its count is the sum of those calls'. -/
def ReallyAdded (calls : List (AddCall T)) (e : Entry T) : Prop :=
  ∃ made, made.Sublist calls ∧ made ≠ [] ∧ (∀ c ∈ made, (c.key == e.item) = true) ∧
    e.count = (made.map AddCall.count).sum

omit [EquivBEq T] in
theorem ReallyAdded.append {calls : List (AddCall T)} {e : Entry T} (h : ReallyAdded calls e)
    (calls' : List (AddCall T)) : ReallyAdded (calls ++ calls') e := by
  obtain ⟨made, hsub, hrest⟩ := h
  exact ⟨made, hsub.trans (List.sublist_append_left calls calls'), hrest⟩

/-- The entries held account for the calls: the file is in step with its counter, every
key's tally is what was added, and every entry stands for calls really made. -/
def Keeps (s : Collector T β n) (calls : List (AddCall T)) : Prop :=
  ∃ flushed, s.tempArray.Holds flushed ∧
    (∀ k, tally k (s.map.iter ++ (flushed ++ s.tempArray.buffered)) = added k calls) ∧
    ∀ e ∈ s.map.iter ++ (flushed ++ s.tempArray.buffered), ReallyAdded calls e

omit [EquivBEq T] [NeZero n] in
theorem keeps_new [Inhabited T] : (new : Collector T β n).Keeps [] := by
  have hnil : (HashCounter.default : HashCounter T).iter = [] := by
    simp [HashCounter.iter, HashCounter.default, Bucket.default]
  refine ⟨[], TempFdArray.holds_new, fun k => ?_, fun e he => ?_⟩
  · simp [new, TempFdArray.new, TempFdArray.buffered, added]
  · simp [new, TempFdArray.new, TempFdArray.buffered, hnil] at he

/-- Whatever the counter holds or gives away after an `add` stands for calls of the longer
run. -/
theorem reallyAdded_of_add {map : HashCounter T} {calls : List (AddCall T)}
    (h : ∀ e ∈ map.iter, ReallyAdded calls e) (c : AddCall T) {e : Entry T}
    (he : e ∈ (map.add hash c.key c.count).1.iter ∨
      e ∈ (map.add hash c.key c.count).2.toList) : ReallyAdded (calls ++ [c]) e := by
  rcases HashCounter.mem_add he with hmem | ⟨e', hmem, hk, rfl⟩ | rfl
  · exact (h e hmem).append [c]
  · -- bumped: it stands for this call too
    obtain ⟨made, hsub, -, hkeys, hcount⟩ := h e' hmem
    refine ⟨made ++ [c], hsub.append (List.Sublist.refl _), by simp, fun x hx => ?_, ?_⟩
    · rcases List.mem_append.mp hx with hx | hx
      · exact hkeys x hx
      · rw [List.mem_singleton.mp hx, BEq.comm]
        exact hk
    · simp [hcount]
  · exact ⟨[c], List.sublist_append_right _ _, by simp, by simp, by simp⟩

/-- **One `add` that returns `Ok` keeps the account.** -/
theorem Keeps.add {s : Collector T β n} {calls : List (AddCall T)} (h : s.Keeps calls)
    {c : AddCall T} (hok : (s.add hash c).2 = .ok ()) :
    (s.add hash c).1.Keeps (calls ++ [c]) := by
  obtain ⟨flushed, hholds, htally, hreal⟩ := h
  have hmap := s.map.tally_add hash c.key c.count
  have hnew : ∀ e, e ∈ (s.map.add hash c.key c.count).1.iter ∨
      e ∈ (s.map.add hash c.key c.count).2.toList → ReallyAdded (calls ++ [c]) e :=
    fun e => reallyAdded_of_add hash (fun e' he' => hreal e' (List.mem_append_left _ he')) c
  rcases s.add_cases hash c with ⟨hev, -, hs⟩ | ⟨evict, hev, hr, hs⟩
  · -- nothing was evicted
    rw [hs]
    refine ⟨flushed, hholds, fun k => ?_, fun e he => ?_⟩
    · have h1 := hmap k
      have h2 := htally k
      rw [hev, Option.toList_none, tally_nil, add_zero] at h1
      rw [tally_append] at h2 ⊢
      rw [added_concat, h1, ← h2]
      abel
    · rcases List.mem_append.mp he with he | he
      · exact hnew e (Or.inl he)
      · exact (hreal e (List.mem_append_right _ he)).append [c]
  · -- what was evicted is now at the end of the log
    rw [hr] at hok
    obtain ⟨flushed', hholds', happ⟩ := TempFdArray.holds_push hholds hok
    rw [hs]
    refine ⟨flushed', hholds', fun k => ?_, fun e he => ?_⟩
    · have h1 := hmap k
      have h2 := htally k
      rw [hev, Option.toList_some] at h1
      rw [tally_append] at h2
      rw [happ, tally_append, tally_append, added_concat, ← h2, add_right_comm, ← h1]
      abel
    · rw [happ] at he
      rcases List.mem_append.mp he with he | he
      · exact hnew e (Or.inl he)
      · rcases List.mem_append.mp he with he | he
        · exact (hreal e (List.mem_append_right _ he)).append [c]
        · exact hnew e (Or.inr (by rw [hev]; exact he))

/-- The run lemma: calls that all return `Ok` keep the account. -/
theorem Keeps.addAll {s : Collector T β n} {before : List (AddCall T)} (h : s.Keeps before) :
    ∀ {calls : List (AddCall T)}, (∀ p ∈ (s.addAll hash calls).2, p.2 = .ok ()) →
      (s.addAll hash calls).1.Keeps (before ++ calls) :=
  addAll_keeps (P := Keeps) hash (fun _ _ _ h hok => Keeps.add hash h hok) h

omit [EquivBEq T] [NeZero n] in
/-- Reading back what accounts for the calls. -/
theorem Keeps.tryIter {s : Collector T β n} {calls : List (AddCall T)} (h : s.Keeps calls) :
    ∃ entries, s.tryIter = .ok entries ∧ (∀ k, tally k entries = added k calls) ∧
      ∀ e ∈ entries, ReallyAdded calls e := by
  obtain ⟨flushed, hholds, htally, hreal⟩ := h
  obtain ⟨it, hit, hlist⟩ := TempFdArray.tryIter_of_holds hholds
  refine ⟨s.map.iter ++ (s.tempArray.buffered ++ flushed), ?_, fun k => ?_, fun e he => ?_⟩
  · rw [Collector.tryIter, hit, ← hlist]
  · rw [← htally k, tally_append, tally_append, tally_append, tally_append,
      add_comm (tally k flushed)]
  · refine hreal e ?_
    rw [List.mem_append, List.mem_append] at he ⊢
    exact he.imp_right Or.symm

/-- The entries held, with those that are in the file. -/
def held (s : Collector T β n) (flushed : List (Entry T)) : List (Entry T) :=
  s.map.iter ++ (flushed ++ s.tempArray.buffered)

/-- What an `add` that returns `Ok` does to the items held: its own key may be new, none is
lost, and one is equal to its key. -/
theorem held_add {s : Collector T β n} {flushed : List (Entry T)}
    (hholds : s.tempArray.Holds flushed) {c : AddCall T} (hok : (s.add hash c).2 = .ok ()) :
    ∃ flushed', (s.add hash c).1.tempArray.Holds flushed' ∧
      (∀ e ∈ (s.add hash c).1.held flushed',
        e.item = c.key ∨ ∃ e' ∈ s.held flushed, e.item = e'.item) ∧
      (∀ e ∈ s.held flushed, ∃ e' ∈ (s.add hash c).1.held flushed', e'.item = e.item) ∧
      ∃ e ∈ (s.add hash c).1.held flushed', (e.item == c.key) = true := by
  have hnew : ∀ e, e ∈ (s.map.add hash c.key c.count).1.iter ∨
      e ∈ (s.map.add hash c.key c.count).2.toList →
      e.item = c.key ∨ ∃ e' ∈ s.held flushed, e.item = e'.item := by
    intro e he
    rcases HashCounter.mem_add he with hmem | ⟨e', hmem, -, rfl⟩ | rfl
    · exact Or.inr ⟨e, List.mem_append_left _ hmem, rfl⟩
    · exact Or.inr ⟨e', List.mem_append_left _ hmem, rfl⟩
    · exact Or.inl rfl
  obtain ⟨resident, hresident, hkey⟩ := s.map.key_add hash c.key c.count
  rcases s.add_cases hash c with ⟨hev, -, hs⟩ | ⟨evict, hev, hr, hs⟩
  · -- nothing was evicted
    rw [hs]
    refine ⟨flushed, hholds, fun e he => ?_, fun e he => ?_, resident,
      List.mem_append_left _ hresident, hkey⟩
    · rcases List.mem_append.mp he with he | he
      · exact hnew e (Or.inl he)
      · exact Or.inr ⟨e, List.mem_append_right _ he, rfl⟩
    · rcases List.mem_append.mp he with he | he
      · obtain ⟨e', hmem, hitem⟩ := HashCounter.item_add hash c.key c.count he
        rw [hev, Option.toList_none] at hmem
        exact ⟨e', List.mem_append_left _ (hmem.resolve_right List.not_mem_nil), hitem⟩
      · exact ⟨e, List.mem_append_right _ he, rfl⟩
  · rw [hr] at hok
    obtain ⟨flushed', hholds', happ⟩ := TempFdArray.holds_push hholds hok
    rw [hs]
    refine ⟨flushed', hholds', fun e he => ?_, fun e he => ?_, resident,
      List.mem_append_left _ hresident, hkey⟩
    · rw [held, happ] at he
      rcases List.mem_append.mp he with he | he
      · exact hnew e (Or.inl he)
      · rcases List.mem_append.mp he with he | he
        · exact Or.inr ⟨e, List.mem_append_right _ he, rfl⟩
        · exact hnew e (Or.inr (by rw [hev]; exact he))
    · rw [held, happ]
      rcases List.mem_append.mp he with he | he
      · obtain ⟨e', hmem, hitem⟩ := HashCounter.item_add hash c.key c.count he
        rw [hev] at hmem
        refine ⟨e', ?_, hitem⟩
        rcases hmem with hin | hout
        · exact List.mem_append_left _ hin
        · exact List.mem_append_right _ (List.mem_append_right _ hout)
      · exact ⟨e, List.mem_append_right _ (List.mem_append_left _ he), rfl⟩

/-- The items held are keys of the calls, and the key of the first call of each class of
equal keys is one of them. -/
def Stems (s : Collector T β n) (calls : List (AddCall T)) : Prop :=
  ∃ flushed, s.tempArray.Holds flushed ∧ (∀ e ∈ s.held flushed, e.item ∈ calls.map AddCall.key) ∧
    ∀ k c, calls.find? (fun c => c.key == k) = some c → ∃ e ∈ s.held flushed, e.item = c.key

omit [EquivBEq T] [NeZero n] in
theorem stems_new [Inhabited T] : (new : Collector T β n).Stems [] := by
  obtain ⟨flushed, hholds, -, hreal⟩ := (keeps_new : (new : Collector T β n).Keeps [])
  refine ⟨flushed, hholds, fun e he => ?_, fun k c hc => by cases hc⟩
  -- nothing stands for calls of an empty run
  obtain ⟨made, hsub, hne, -⟩ := hreal e he
  exact absurd (List.sublist_nil.mp hsub) hne

/-- An `add` that returns `Ok`. -/
theorem Stems.add {s : Collector T β n} {calls : List (AddCall T)} (h : s.Stems calls)
    {c : AddCall T} (hok : (s.add hash c).2 = .ok ()) :
    (s.add hash c).1.Stems (calls ++ [c]) := by
  obtain ⟨flushed, hholds, hitems, hfirst⟩ := h
  obtain ⟨flushed', hholds', hfrom, hstay, e₀, he₀, hk₀⟩ := held_add hash hholds hok
  refine ⟨flushed', hholds', fun e he => ?_, fun k c₁ hc₁ => ?_⟩
  · rw [List.map_append, List.mem_append]
    rcases hfrom e he with hnew | ⟨e', he', hitem⟩
    · exact Or.inr (List.mem_singleton.mpr hnew)
    · exact Or.inl (hitem ▸ hitems e' he')
  · rw [List.find?_append] at hc₁
    cases hold : calls.find? (fun c => c.key == k) with
    | some c₂ =>
      rw [hold, Option.some_or, Option.some.injEq] at hc₁
      obtain ⟨e, he, hitem⟩ := hfirst k c₂ hold
      obtain ⟨e', he', hitem'⟩ := hstay e he
      exact ⟨e', he', by rw [hitem', hitem, hc₁]⟩
    | none =>
      -- the first call for its class: what is held for the class is its own key
      rw [hold, Option.none_or, List.find?_singleton] at hc₁
      split at hc₁
      · next hk =>
        cases hc₁
        refine ⟨e₀, he₀, ?_⟩
        rcases hfrom e₀ he₀ with hnew | ⟨e', he', hitem⟩
        · exact hnew
        · obtain ⟨c', hc', hkey⟩ := List.mem_map.mp (hitems e' he')
          have hno := List.find?_eq_none.mp hold c' hc'
          rw [hkey, ← hitem] at hno
          exact absurd (BEq.trans hk₀ hk) hno
      · cases hc₁

/-- Calls that all return `Ok`. -/
theorem Stems.addAll {s : Collector T β n} {before : List (AddCall T)} (h : s.Stems before) :
    ∀ {calls : List (AddCall T)}, (∀ p ∈ (s.addAll hash calls).2, p.2 = .ok ()) →
      (s.addAll hash calls).1.Stems (before ++ calls) :=
  addAll_keeps (P := Stems) hash (fun _ _ _ h hok => Stems.add hash h hok) h

omit [EquivBEq T] [NeZero n] in
/-- Reading back. -/
theorem Stems.tryIter {s : Collector T β n} {calls : List (AddCall T)} (h : s.Stems calls)
    {entries : List (Entry T)} (hiter : s.tryIter = .ok entries) :
    (∀ e ∈ entries, e.item ∈ calls.map AddCall.key) ∧
      ∀ k c, calls.find? (fun c => c.key == k) = some c → ∃ e ∈ entries, e.item = c.key := by
  obtain ⟨flushed, hholds, hitems, hfirst⟩ := h
  obtain ⟨it, hit, hlist⟩ := TempFdArray.tryIter_of_holds hholds
  rw [Collector.tryIter, hit, Except.ok.injEq, hlist] at hiter
  have hmem : ∀ e, e ∈ entries ↔ e ∈ s.held flushed := by
    intro e
    rw [← hiter, held]
    simp only [List.mem_append]
    exact or_congr_right or_comm
  refine ⟨fun e he => hitems e ((hmem e).mp he), fun k c hc => ?_⟩
  obtain ⟨e, he, hitem⟩ := hfirst k c hc
  exact ⟨e, (hmem e).mpr he, hitem⟩

theorem add_ok {s : Collector T β n} {c : AddCall T} (h : ∀ w ∈ c.writes, w.Succeeds) :
    (s.add hash c).2 = .ok () := by
  rcases s.add_cases hash c with ⟨-, hok, -⟩ | ⟨evict, -, hr, -⟩
  · exact hok
  · rw [hr]
    exact TempFdArray.push_ok h evict

theorem addAll_ok (s : Collector T β n) {calls : List (AddCall T)}
    (h : ∀ c ∈ calls, ∀ w ∈ c.writes, w.Succeeds) :
    ∀ p ∈ (s.addAll hash calls).2, p.2 = .ok () := by
  induction calls generalizing s with
  | nil => simp [Collector.addAll]
  | cons c calls ih =>
    rw [List.forall_mem_cons] at h
    simp only [Collector.addAll, List.forall_mem_cons]
    exact ⟨add_ok hash h.1, ih _ h.2⟩

/-- **The collector conserves counts.**  After any calls whose writes succeed, reading
back succeeds and the entries of each key sum to what was added for it, however the key
was spread over residents, evictions, buffered and flushed entries.  Items are read back from
their own bytes; what becomes of keys that point elsewhere is in `Rpprof.Collector.Owned`. -/
theorem tally_tryIter [Inhabited T] (calls : List (AddCall T))
    (hw : ∀ c ∈ calls, ∀ w ∈ c.writes, w.Succeeds) :
    ∃ entries, ((new : Collector T β n).addAll hash calls).1.tryIter = .ok entries ∧
      ∀ k, tally k entries = added k calls := by
  have hkeeps := Keeps.addAll hash keeps_new (addAll_ok hash (new : Collector T β n) hw)
  obtain ⟨entries, hiter, htally, -⟩ := hkeeps.tryIter
  exact ⟨entries, hiter, htally⟩

/-! ### When a write fails -/

/-- The call has to flush, and the flush fails: a full buffer meets an eviction, and
`write_all` is answered with an error. -/
def FlushFails (s : Collector T β n) (c : AddCall T) : Prop :=
  (s.map.add hash c.key c.count).2 ≠ none ∧ n ≤ s.tempArray.bufferIndex ∧
    ∃ e, (writeAll c.writes (image s.tempArray.buffer.toList)).2 = .error e

/-- No call of the run fails to flush. -/
def FlushesSucceed : Collector T β n → List (AddCall T) → Prop
  | _, [] => True
  | s, c :: calls => ¬s.FlushFails hash c ∧ FlushesSucceed (s.add hash c).1 calls

/-- An `add` returns an error exactly when it fails to flush. -/
theorem add_eq_ok_iff (s : Collector T β n) (c : AddCall T) :
    (s.add hash c).2 = .ok () ↔ ¬s.FlushFails hash c := by
  rcases s.add_cases hash c with ⟨hev, hok, -⟩ | ⟨evict, hev, hr, -⟩
  · simp [hok, FlushFails, hev]
  · rw [hr]
    constructor
    · rintro hok ⟨-, hfull, e, he⟩
      rcases s.tempArray.push_file c.writes evict with ⟨hroom, -, -, -⟩ | ⟨-, -, -, hres⟩
      · omega
      · rw [hres] at hok
        cases he.symm.trans hok
    · intro hno
      rcases s.tempArray.push_file c.writes evict with ⟨-, -, -, hok⟩ | ⟨hfull, -, -, hres⟩
      · exact hok
      · rw [hres]
        cases hw : (writeAll c.writes (image s.tempArray.buffer.toList)).2 with
        | ok u => exact hw
        | error e => exact absurd ⟨by simp [hev], hfull, e, hw⟩ hno

end Collector

/-- What the calls that returned `Ok` recorded for `k`. -/
def recorded (k : T) (log : List (AddCall T × Except IoError Unit)) : ℤ :=
  added k ((log.filter fun p => p.2.isOk).map Prod.fst)

/-- Reading the collector back succeeds, yields only what was really added, and for
each key at least what the calls that returned `Ok` recorded. -/
def NothingLost [MemImage β (Entry T)]
    (run : Collector T β n × List (AddCall T × Except IoError Unit)) : Prop :=
  ∃ entries, run.1.tryIter = .ok entries ∧
    (∀ e ∈ entries, Collector.ReallyAdded (run.2.map Prod.fst) e) ∧
    ∀ k, recorded k run.2 ≤ tally k entries

namespace Collector

variable [EquivBEq T] [MemImage β (Entry T)] [NeZero n] (hash : T → ℕ)

theorem map_fst_addAll (s : Collector T β n) (calls : List (AddCall T)) :
    (s.addAll hash calls).2.map Prod.fst = calls := by
  induction calls generalizing s with
  | nil => rfl
  | cons c calls ih => simp only [addAll, List.map_cons, ih]

theorem addAll_ok_of_flushesSucceed (s : Collector T β n) {calls : List (AddCall T)}
    (h : s.FlushesSucceed hash calls) : ∀ p ∈ (s.addAll hash calls).2, p.2 = .ok () := by
  induction calls generalizing s with
  | nil => simp [addAll]
  | cons c calls ih =>
    simp only [addAll, List.forall_mem_cons]
    exact ⟨(s.add_eq_ok_iff hash c).mpr h.1, ih _ h.2⟩

/-- Writes that all make progress. -/
theorem flushesSucceed_of_succeeds (s : Collector T β n) {calls : List (AddCall T)}
    (h : ∀ c ∈ calls, ∀ w ∈ c.writes, w.Succeeds) : s.FlushesSucceed hash calls := by
  induction calls generalizing s with
  | nil => trivial
  | cons c calls ih =>
    rw [List.forall_mem_cons] at h
    exact ⟨(s.add_eq_ok_iff hash c).mp (add_ok hash h.1), ih _ h.2⟩

/-- Without a failed flush, nothing is lost. -/
theorem nothingLost_of_flushesSucceed [Inhabited T] {calls : List (AddCall T)}
    (h : (new : Collector T β n).FlushesSucceed hash calls) :
    NothingLost ((new : Collector T β n).addAll hash calls) := by
  have hok := addAll_ok_of_flushesSucceed hash new h
  obtain ⟨entries, hiter, htally, hreal⟩ := (Keeps.addAll hash keeps_new hok).tryIter
  refine ⟨entries, hiter, ?_, fun k => ?_⟩
  · rw [map_fst_addAll]; exact hreal
  · have hall : ((new : Collector T β n).addAll hash calls).2.filter (fun p => p.2.isOk) =
        ((new : Collector T β n).addAll hash calls).2 := by
      refine List.filter_eq_self.mpr fun p hp => ?_
      rw [hok p hp]; rfl
    rw [recorded, hall, map_fst_addAll, htally k]
    simp

/-- What every push keeps, every run keeps. -/
theorem tempArray_addAll {P : TempFdArray (Entry T) β n → Prop}
    (hpush : ∀ a writes entry, P a → P (a.push writes entry).1) {s : Collector T β n}
    (h : P s.tempArray) (calls : List (AddCall T)) : P (s.addAll hash calls).1.tempArray := by
  induction calls generalizing s with
  | nil => exact h
  | cons c calls ih =>
    apply ih
    rcases s.add_cases hash c with ⟨-, -, hs⟩ | ⟨evict, -, -, hs⟩
    · rw [hs]
      exact h
    · rw [hs]
      exact hpush _ _ _ h

/-- The file never holds more than is counted, whatever the writes do. -/
theorem bounded_addAll {s : Collector T β n} (h : s.tempArray.Bounded) (calls : List (AddCall T)) :
    (s.addAll hash calls).1.tempArray.Bounded :=
  tempArray_addAll hash (P := TempFdArray.Bounded)
    (fun _ writes entry ha => TempFdArray.bounded_push ha writes entry) h calls

/-- A short file stays short for the rest of the run. -/
theorem short_addAll {s : Collector T β n} (h : s.tempArray.Short) (calls : List (AddCall T)) :
    (s.addAll hash calls).1.tempArray.Short :=
  tempArray_addAll hash (P := TempFdArray.Short) (fun _ writes entry ha => ha.push writes entry) h
    calls

/-- A call that fails to flush leaves the file short. -/
theorem short_of_flushFails {s : Collector T β n} (hb : s.tempArray.Bounded) {c : AddCall T}
    (h : s.FlushFails hash c) : (s.add hash c).1.tempArray.Short := by
  rcases s.add_cases hash c with ⟨hev, -, -⟩ | ⟨evict, -, hr, hs⟩
  · exact absurd hev h.1
  · cases hres : (s.add hash c).2 with
    | ok u => exact absurd h ((s.add_eq_ok_iff hash c).mp hres)
    | error e =>
      rw [hs]
      exact TempFdArray.short_push hb (hr.symm.trans hres)

/-- One failed flush makes the file short for good. -/
theorem short_of_not_flushesSucceed {s : Collector T β n} (hb : s.tempArray.Bounded)
    {calls : List (AddCall T)} (h : ¬s.FlushesSucceed hash calls) :
    (s.addAll hash calls).1.tempArray.Short := by
  induction calls generalizing s with
  | nil => exact absurd trivial h
  | cons c calls ih =>
    by_cases hc : s.FlushFails hash c
    · -- this one failed: whatever follows, the file stays short
      exact short_addAll hash (short_of_flushFails hash hb hc) calls
    · have hrest : ¬(s.add hash c).1.FlushesSucceed hash calls := fun hr => h ⟨hc, hr⟩
      exact ih (bounded_addAll hash hb [c]) hrest

/-- Only a run whose flushes all succeeded can be read back. -/
theorem flushesSucceed_of_tryIter [Inhabited T] {calls : List (AddCall T)}
    {entries : List (Entry T)}
    (hiter : ((new : Collector T β n).addAll hash calls).1.tryIter = .ok entries) :
    (new : Collector T β n).FlushesSucceed hash calls := by
  by_contra hfail
  have hb : (new : Collector T β n).tempArray.Bounded := Nat.zero_le _
  have hshort := short_of_not_flushesSucceed hash hb hfail
  rw [tryIter, TempFdArray.tryIter_of_short hshort] at hiter
  cases hiter

/-- **A run loses nothing exactly when none of its flushes failed.**  After a failed
flush no read succeeds any more: the counter of flushed buffers moved, the file did
not, and `read_exact` asks for bytes that are not there. -/
theorem nothingLost_iff [Inhabited T] (calls : List (AddCall T)) :
    NothingLost ((new : Collector T β n).addAll hash calls) ↔
      (new : Collector T β n).FlushesSucceed hash calls := by
  constructor
  · rintro ⟨entries, hiter, -⟩
    exact flushesSucceed_of_tryIter hash hiter
  · exact nothingLost_of_flushesSucceed hash

/-- Twelve colliding keys and a buffer of seven: four stay resident, the next seven evict one entry
each, and the twelfth flushes the buffer, in two writes. -/
def flushCalls : List (AddCall ℕ) :=
  (List.range 12).map fun i => ⟨4096 * i, 1, if i = 11 then [.interrupted, .wrote 3] else []⟩

theorem nothingLost_iff_flushCalls :
    letI : MemImage (Entry ℕ) (Entry ℕ) := MemImage.cell (Entry ℕ)
    NothingLost ((new : Collector ℕ (Entry ℕ) 7).addAll id flushCalls) ∧
      ((new : Collector ℕ (Entry ℕ) 7).addAll id flushCalls).1.tempArray.flushN = 1 := by
  let _ : MemImage (Entry ℕ) (Entry ℕ) := MemImage.cell (Entry ℕ)
  have hwrites : ∀ c ∈ flushCalls, ∀ w ∈ c.writes, w.Succeeds := by decide
  exact ⟨(nothingLost_iff id flushCalls).mpr (flushesSucceed_of_succeeds id new hwrites),
    by decide +kernel⟩

/-- The same keys, with the disk full when the twelfth finds the buffer full. -/
def spillCalls : List (AddCall ℕ) :=
  (List.range 12).map fun i => ⟨4096 * i, 1, if i = 11 then [.failed] else []⟩

/-- The failed flush of the twelfth call makes all the earlier ones unreadable. -/
theorem spillCalls_lost :
    letI : MemImage (Entry ℕ) (Entry ℕ) := MemImage.cell (Entry ℕ)
    (∀ p ∈ ((new : Collector ℕ (Entry ℕ) 7).addAll id spillCalls).2.take 11, p.2 = .ok ()) ∧
      ((new : Collector ℕ (Entry ℕ) 7).addAll id spillCalls).1.tryIter.isOk = false ∧
      ¬NothingLost ((new : Collector ℕ (Entry ℕ) 7).addAll id spillCalls) := by
  let _ : MemImage (Entry ℕ) (Entry ℕ) := MemImage.cell (Entry ℕ)
  have hread : ((new : Collector ℕ (Entry ℕ) 7).addAll id spillCalls).1.tryIter.isOk = false := by
    decide +kernel
  refine ⟨by decide +kernel, hread, ?_⟩
  rintro ⟨entries, hiter, -⟩
  rw [hiter] at hread
  cases hread

end Collector

end Rpprof
