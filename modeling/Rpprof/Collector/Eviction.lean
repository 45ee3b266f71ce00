import Mathlib.Order.Bounds.Defs
import Mathlib.Data.List.FinRange
import Rpprof.Collector.HashCounter

/-!
# Which entry is evicted

A key that is not resident in a full bucket takes the slot of the first entry with the least
count there, and that entry is handed back.  The scan for a resident key updates every match, so
it is right only because no key is resident twice; a key is looked for in one bucket only, so that
needs every entry to be in the bucket of its hash.  Both are kept by every `add`.

Since the least entry of a full bucket is the one to go, and a bucket has more than one slot, an
entry with the largest count of its bucket leaves another one as large behind.

## Main definitions

* `HashCounter.addEach` — a run of calls.
* `HashCounter.Represents hash h` — the invariant of the counter.
* `HashCounter.Evicts` — what an `add` that returns an entry does.
* `Bucket.counts` — the counts resident in a bucket.

## Main results

* `Bucket.minIndex_least` — the slot found holds a least entry.
* `Bucket.add_evicts` — what an eviction leaves in the bucket.
* `Bucket.dominated_add` — for every entry one as large is left.
* `HashCounter.represents_addEach` — **the invariant holds after every run of calls**.
* `HashCounter.representation_and_eviction` — with it, what an eviction does wherever one happens,
  and that **the largest count of a bucket never decreases**.
-/

namespace Rpprof

variable {T : Type*} [BEq T]

namespace Bucket

/-! ### The minimum search -/

omit [BEq T] in
/-- From a slot whose count is least so far, the search finds one that is least of all. -/
theorem minSearch_least {l : List (Entry T)} : ∀ (es done : List (Entry T)) (minIndex : ℕ)
    (h : minIndex < l.length), l = done ++ es → (∀ e ∈ done, l[minIndex].count ≤ e.count) →
      ∃ h' : minSearch es done.length minIndex l[minIndex].count < l.length,
        ∀ e ∈ l, l[minSearch es done.length minIndex l[minIndex].count].count ≤ e.count := by
  intro es
  induction es with
  | nil =>
    intro done minIndex h hl hleast
    rw [List.append_nil] at hl
    exact ⟨h, fun e he => hleast e (hl ▸ he)⟩
  | cons e es ih =>
    intro done minIndex h hl hleast
    have hl' : l = (done ++ [e]) ++ es := by rw [hl, List.append_assoc, List.singleton_append]
    have hlen : (done ++ [e]).length = done.length + 1 := by simp
    have hslot : done.length < l.length := by rw [hl]; simp
    have he : l[done.length] = e := by simp [hl]
    rw [minSearch]
    split
    · next hlt =>
      -- the minimum moves to this slot
      have hnew : ∀ e' ∈ done ++ [e], l[done.length].count ≤ e'.count := by
        intro e' he'
        rw [he]
        rcases List.mem_append.mp he' with hdone | hlast
        · exact (Int.le_of_lt hlt).trans (hleast e' hdone)
        · rw [List.mem_singleton.mp hlast]
      have hrest := ih (done ++ [e]) done.length hslot hl' hnew
      simp only [hlen, he] at hrest
      exact hrest
    · next hge =>
      have hold : ∀ e' ∈ done ++ [e], l[minIndex].count ≤ e'.count := by
        intro e' he'
        rcases List.mem_append.mp he' with hdone | hlast
        · exact hleast e' hdone
        · rw [List.mem_singleton.mp hlast]
          exact Int.not_lt.mp hge
      have hrest := ih (done ++ [e]) minIndex h hl' hold
      simp only [hlen] at hrest
      exact hrest

omit [BEq T] in
/-- **The slot found holds a least entry.** -/
theorem minIndex_least {l : List (Entry T)} (h : minIndex l < l.length) :
    ∀ e ∈ l, l[minIndex l].count ≤ e.count := by
  cases l with
  | nil => exact fun e he => absurd he List.not_mem_nil
  | cons e es =>
    obtain ⟨_, hleast⟩ := minSearch_least (l := e :: es) (e :: es) [] 0 (by simp) rfl
      (fun e he => absurd he List.not_mem_nil)
    exact hleast

/-! ### An eviction -/

section Equiv

variable [EquivBEq T]

/-- **What an eviction does to a bucket**: the key was not resident, no slot was free, a least
entry makes room for the new one, and the others keep their slots. -/
theorem add_evicts {b : Bucket T} {key : T} {count : ℤ} {evicted : Entry T}
    (h : (b.add key count).2 = some evicted) :
    b.Lacks key ∧ b.entries.length = bucketsAssociativity ∧
      ∃ before after, b.entries = before ++ evicted :: after ∧
        (b.add key count).1.entries = before ++ ⟨key, count⟩ :: after ∧
        ∀ e ∈ before ++ after, evicted.count ≤ e.count := by
  rcases b.add_cases key count with ⟨-, hev, -⟩ | ⟨-, -, hev, -⟩ | ⟨hlacks, hfull, hmin, hev, hent⟩
  · rw [hev] at h; cases h
  · rw [hev] at h; cases h
  · rw [hev, Option.some.injEq] at h
    have hsplit : b.entries = b.entries.take (minIndex b.entries) ++
        evicted :: b.entries.drop (minIndex b.entries + 1) := by
      rw [← h, List.cons_getElem_drop_succ, List.take_append_drop]
    refine ⟨hlacks, hfull, _, _, hsplit, ?_, fun e he => ?_⟩
    · rw [hent, List.set_eq_take_append_cons_drop, if_pos hmin]
    · rw [← h]
      refine minIndex_least hmin e ?_
      rw [hsplit]
      rcases List.mem_append.mp he with hbefore | hafter
      · exact List.mem_append_left _ hbefore
      · exact List.mem_append_right _ (List.mem_cons_of_mem _ hafter)

end Equiv

/-! ### The largest count of a bucket -/

/-- The counts resident in a bucket. -/
def counts (b : Bucket T) : Set ℤ := { c | ∃ e ∈ b.entries, e.count = c }

omit [BEq T] in
/-- Some entry has the largest count. -/
theorem exists_largest : ∀ {l : List (Entry T)}, l ≠ [] → ∃ e ∈ l, ∀ e' ∈ l, e'.count ≤ e.count
  | [], h => absurd rfl h
  | [e], _ => ⟨e, List.mem_singleton_self e, fun e' he' => (List.mem_singleton.mp he' ▸ le_rfl)⟩
  | e :: e₁ :: l, _ => by
    obtain ⟨m, hm, hlargest⟩ := exists_largest (List.cons_ne_nil e₁ l)
    rcases Int.le_total e.count m.count with hle | hle
    · exact ⟨m, List.mem_cons_of_mem _ hm, List.forall_mem_cons.mpr ⟨hle, hlargest⟩⟩
    · exact ⟨e, List.mem_cons_self,
        List.forall_mem_cons.mpr ⟨le_rfl, fun e' he' => (hlargest e' he').trans hle⟩⟩

/-- Every entry has one as large in the other bucket. -/
def Dominated (b b' : Bucket T) : Prop := ∀ e ∈ b.entries, ∃ e' ∈ b'.entries, e.count ≤ e'.count

theorem Dominated.trans {b b' b'' : Bucket T} (h : b.Dominated b') (h' : b'.Dominated b'') :
    b.Dominated b'' := by
  intro e he
  obtain ⟨e', he', hle⟩ := h e he
  obtain ⟨e'', he'', hle'⟩ := h' e' he'
  exact ⟨e'', he'', hle.trans hle'⟩

/-- So the largest count there is not smaller. -/
theorem Dominated.largest {b b' : Bucket T} (h : b.Dominated b') {c : ℤ}
    (hc : IsGreatest b.counts c) : ∃ c', IsGreatest b'.counts c' ∧ c ≤ c' := by
  obtain ⟨⟨e, he, rfl⟩, -⟩ := hc
  obtain ⟨e', he', hle⟩ := h e he
  obtain ⟨m, hm, hlargest⟩ := exists_largest (List.ne_nil_of_mem he')
  refine ⟨m.count, ⟨⟨m, hm, rfl⟩, ?_⟩, hle.trans (hlargest e' he')⟩
  rintro _ ⟨e'', he'', rfl⟩
  exact hlargest e'' he''

variable [EquivBEq T]

/-- **An `add` of a count that is not negative leaves an entry as large for every one that was
there**: an evicted one was the least of a bucket with more than one slot. -/
theorem dominated_add (b : Bucket T) (key : T) {count : ℤ} (hcount : 0 ≤ count) :
    b.Dominated (b.add key count).1 := by
  intro e he
  rcases b.add_cases key count with ⟨-, -, hent⟩ | ⟨-, -, -, hent⟩ | ⟨-, -, hmin, hev, -⟩
  · refine ⟨bump key count e, hent ▸ List.mem_map_of_mem he, ?_⟩
    unfold bump
    split
    · show e.count ≤ e.count + count
      omega
    · exact le_rfl
  · exact ⟨e, hent ▸ List.mem_append_left _ he, le_rfl⟩
  · obtain ⟨-, hfull, before, after, hb, hb', hleast⟩ := add_evicts hev
    have hstays : ∀ e' ∈ before ++ after, e' ∈ (b.add key count).1.entries := by
      intro e' he'
      rw [hb']
      rcases List.mem_append.mp he' with hbefore | hafter
      · exact List.mem_append_left _ hbefore
      · exact List.mem_append_right _ (List.mem_cons_of_mem _ hafter)
    rw [hb, List.mem_append, List.mem_cons] at he
    rcases he with hbefore | rfl | hafter
    · exact ⟨e, hstays e (List.mem_append_left _ hbefore), le_rfl⟩
    · -- the evicted entry: the bucket is full, so there is another one
      have hother : before ++ after ≠ [] := by
        intro hnil
        obtain ⟨rfl, rfl⟩ := List.append_eq_nil_iff.mp hnil
        rw [hb] at hfull
        exact absurd hfull (show ¬(1 = 4) by decide)
      obtain ⟨e', he'⟩ := List.exists_mem_of_ne_nil _ hother
      exact ⟨e', hstays e' he', hleast e' he'⟩
    · exact ⟨e, hstays e (List.mem_append_right _ hafter), le_rfl⟩

/-- An entry above another one of its bucket is not the one evicted, nor is any of its key. -/
theorem not_evicted {b : Bucket T} {key : T} {count : ℤ} {e e' evicted : Entry T}
    (he : e ∈ b.entries) (he' : e' ∈ b.entries) (hlt : e'.count < e.count)
    (h : (b.add key count).2 = some evicted) : (evicted.item == e.item) = false := by
  obtain ⟨-, -, before, after, hb, -, hleast⟩ := add_evicts h
  have hdistinct := b.distinct
  rw [DistinctItems, hb, List.pairwise_append, List.pairwise_cons] at hdistinct
  obtain ⟨-, ⟨hafter, -⟩, hbefore⟩ := hdistinct
  rw [hb, List.mem_append, List.mem_cons] at he
  rcases he with he | rfl | he
  · rw [BEq.comm]
    exact hbefore e he evicted List.mem_cons_self
  · -- it would be least, and `e'` is below it
    exfalso
    have hle : e.count ≤ e'.count := by
      rw [hb, List.mem_append, List.mem_cons] at he'
      rcases he' with he' | rfl | he'
      · exact hleast e' (List.mem_append_left _ he')
      · exact le_rfl
      · exact hleast e' (List.mem_append_right _ he')
    omega
  · exact hafter e he

end Bucket

/-! ### The counter -/

namespace HashCounter

/-- The invariant: the buckets are within their capacity, every entry is in the bucket of its
hash, and no two entries have the same key. -/
structure Represents (hash : T → ℕ) (h : HashCounter T) : Prop where
  /-- The capacity. -/
  length_le : ∀ i, (h.buckets i).entries.length ≤ bucketsAssociativity
  /-- Where the entries are. -/
  index_eq : ∀ i, ∀ e ∈ (h.buckets i).entries, index hash e.item = i
  /-- The keys of `iter`. -/
  distinct : DistinctItems h.iter

/-- Keys are distinct over all buckets as soon as every entry is in the bucket of its hash. -/
theorem represents_of_index_eq {hash : T → ℕ} (hhash : ∀ a b, (a == b) = true → hash a = hash b)
    {h : HashCounter T} (hindex : ∀ i, ∀ e ∈ (h.buckets i).entries, index hash e.item = i) :
    h.Represents hash where
  length_le i := (h.buckets i).length_le
  index_eq := hindex
  distinct := by
    refine List.pairwise_flatMap.mpr ⟨fun i _ => (h.buckets i).distinct, ?_⟩
    refine (List.nodup_finRange _).imp fun {i j} hij e he e' he' => ?_
    by_contra heq
    rw [Bool.not_eq_false] at heq
    refine hij ?_
    rw [← hindex i e he, ← hindex j e' he', index, index, Fin.mk.injEq, hhash _ _ heq]

theorem represents_default {hash : T → ℕ} (hhash : ∀ a b, (a == b) = true → hash a = hash b) :
    (default : HashCounter T).Represents hash :=
  represents_of_index_eq hhash fun _ _ he => absurd he List.not_mem_nil

variable [EquivBEq T] (hash : T → ℕ)

/-- An `add` changes the bucket of its key. -/
theorem buckets_add_self (h : HashCounter T) (key : T) (count : ℤ) :
    (h.add hash key count).1.buckets (index hash key) =
      ((h.buckets (index hash key)).add key count).1 :=
  Function.update_self ..

/-- It changes no other bucket. -/
theorem buckets_add_of_ne (h : HashCounter T) (key : T) (count : ℤ) {i : Fin Rpprof.buckets}
    (hi : i ≠ index hash key) : (h.add hash key count).1.buckets i = h.buckets i :=
  Function.update_of_ne hi ..

/-- One `add` of each call after the other. -/
def addEach (h : HashCounter T) (calls : List (T × ℤ)) : HashCounter T :=
  calls.foldl (fun h call => (h.add hash call.1 call.2).1) h

theorem addEach_append (h : HashCounter T) (calls later : List (T × ℤ)) :
    h.addEach hash (calls ++ later) = (h.addEach hash calls).addEach hash later :=
  List.foldl_append

variable {hash}

/-- An `add` keeps every entry in the bucket of its hash. -/
theorem Represents.add (hhash : ∀ a b, (a == b) = true → hash a = hash b) {h : HashCounter T}
    (hrep : h.Represents hash) (key : T) (count : ℤ) :
    (h.add hash key count).1.Represents hash := by
  refine represents_of_index_eq hhash fun i e he => ?_
  by_cases hi : i = index hash key
  · subst hi
    rw [buckets_add_self] at he
    rcases Bucket.mem_add (Or.inl he) with hold | ⟨e', hold, -, rfl⟩ | rfl
    · exact hrep.index_eq _ e hold
    · exact hrep.index_eq _ e' hold
    · rfl
  · rw [buckets_add_of_ne hash h key count hi] at he
    exact hrep.index_eq i e he

/-- **The invariant holds after every run of calls.** -/
theorem represents_addEach (hhash : ∀ a b, (a == b) = true → hash a = hash b)
    {h : HashCounter T} (hrep : h.Represents hash) (calls : List (T × ℤ)) :
    (h.addEach hash calls).Represents hash := by
  induction calls generalizing h with
  | nil => exact hrep
  | cons call calls ih => exact ih (hrep.add hhash call.1 call.2)

/-- A run of calls leaves an entry as large for every one in a bucket. -/
theorem dominated_addEach {calls : List (T × ℤ)} (hcalls : ∀ call ∈ calls, 0 ≤ call.2)
    (h : HashCounter T) (i : Fin Rpprof.buckets) :
    (h.buckets i).Dominated ((h.addEach hash calls).buckets i) := by
  induction calls generalizing h with
  | nil => exact fun e he => ⟨e, he, le_rfl⟩
  | cons call calls ih =>
    rw [List.forall_mem_cons] at hcalls
    refine Bucket.Dominated.trans ?_ (ih hcalls.2 _)
    by_cases hi : i = index hash call.1
    · subst hi
      rw [buckets_add_self]
      exact Bucket.dominated_add _ _ hcalls.1
    · rw [buckets_add_of_ne hash h _ _ hi]
      exact fun e he => ⟨e, he, le_rfl⟩

/-- What an `add` that returns an entry does: the key was absent from its bucket, which was full;
the entry returned was least there, and the new one is in its slot; all else is as before. -/
structure Evicts (hash : T → ℕ) (h h' : HashCounter T) (key : T) (count : ℤ)
    (evicted : Entry T) : Prop where
  /-- The key was not resident. -/
  lacks : (h.buckets (index hash key)).Lacks key
  /-- No slot was free. -/
  full : (h.buckets (index hash key)).entries.length = bucketsAssociativity
  /-- The new entry is in the slot of the one returned, the others of the bucket are in theirs,
  and none of them has a smaller count. -/
  slots : ∃ before after,
    (h.buckets (index hash key)).entries = before ++ evicted :: after ∧
    (h'.buckets (index hash key)).entries = before ++ ⟨key, count⟩ :: after ∧
    ∀ e ∈ before ++ after, evicted.count ≤ e.count
  /-- The other buckets. -/
  others : ∀ i, i ≠ index hash key → h'.buckets i = h.buckets i

theorem evicts_add {h : HashCounter T} {key : T} {count : ℤ} {evicted : Entry T}
    (hev : (h.add hash key count).2 = some evicted) :
    Evicts hash h (h.add hash key count).1 key count evicted := by
  obtain ⟨hlacks, hfull, hslots⟩ := Bucket.add_evicts hev
  refine ⟨hlacks, hfull, ?_, fun i hi => buckets_add_of_ne hash h key count hi⟩
  rw [buckets_add_self]
  exact hslots

/-- Counts add up to no more than was passed, so while that sum is an `isize` so is every count. -/
theorem count_addEach {calls : List (T × ℤ)} (hcalls : ∀ call ∈ calls, 0 ≤ call.2) :
    ∀ {h : HashCounter T} {bound : ℤ}, (∀ e ∈ h.iter, 0 ≤ e.count ∧ e.count ≤ bound) → 0 ≤ bound →
      ∀ e ∈ (h.addEach hash calls).iter,
        0 ≤ e.count ∧ e.count ≤ bound + (calls.map Prod.snd).sum := by
  induction calls with
  | nil =>
    intro h bound hbound _ e he
    rw [List.map_nil, List.sum_nil, Int.add_zero]
    exact hbound e he
  | cons call calls ih =>
    intro h bound hbound hpos e he
    rw [List.forall_mem_cons] at hcalls
    rw [List.map_cons, List.sum_cons, ← Int.add_assoc]
    refine ih hcalls.2 (fun e he => ?_) (by omega) e he
    rcases mem_add (Or.inl he) with hold | ⟨e', hold, -, rfl⟩ | rfl
    · have := hbound e hold
      omega
    · have := hbound e' hold
      simp only
      omega
    · simp only
      omega

/-- **Representation and eviction.**  After any run of calls the counter represents its keys, each
once and in its bucket; whatever an `add` then evicts was least in a full bucket and nothing else
is touched; no bucket's largest count goes down in a further run; and no entry above another one
of its bucket is evicted. -/
theorem representation_and_eviction (hhash : ∀ a b, (a == b) = true → hash a = hash b)
    (calls : List (T × ℤ)) :
    (default.addEach hash calls).Represents hash ∧
    (∀ key count evicted, ((default.addEach hash calls).add hash key count).2 = some evicted →
      Evicts hash (default.addEach hash calls)
        ((default.addEach hash calls).add hash key count).1 key count evicted) ∧
    (∀ later : List (T × ℤ), (∀ call ∈ later, 0 ≤ call.2) → ∀ i c,
      IsGreatest ((default.addEach hash calls).buckets i).counts c →
        ∃ c', IsGreatest ((default.addEach hash (calls ++ later)).buckets i).counts c' ∧
          c ≤ c') ∧
    (∀ i, ∀ e ∈ ((default.addEach hash calls).buckets i).entries,
      (∃ e' ∈ ((default.addEach hash calls).buckets i).entries, e'.count < e.count) →
      ∀ key count evicted, ((default.addEach hash calls).add hash key count).2 = some evicted →
        (evicted.item == e.item) = false) := by
  have hrep : (default.addEach hash calls).Represents hash :=
    represents_addEach hhash (represents_default hhash) calls
  refine ⟨hrep, fun key count evicted => evicts_add, fun later hlater i c hc => ?_, ?_⟩
  · rw [addEach_append]
    exact (dominated_addEach hlater _ i).largest hc
  · rintro i e he ⟨e', he', hlt⟩ key count evicted hev
    by_cases hi : i = index hash key
    · subst hi
      exact Bucket.not_evicted he he' hlt hev
    · -- what is evicted comes from the bucket of the key
      obtain ⟨before, after, hb, -, -⟩ := (evicts_add hev).slots
      have hmem : evicted ∈ ((default.addEach hash calls).buckets (index hash key)).entries :=
        hb ▸ List.mem_append_right _ List.mem_cons_self
      by_contra heq
      rw [Bool.not_eq_false] at heq
      refine hi ?_
      rw [← hrep.index_eq i e he, ← hrep.index_eq _ evicted hmem, index, index, Fin.mk.injEq,
        hhash _ _ heq]

/-- Four keys of one bucket; a fifth takes the slot of the first of two least entries. -/
theorem representation_and_eviction_five :
    ((default : HashCounter ℕ).addEach id
        [(0, 3), (4096, 1), (8192, 2), (12288, 1)]).Represents id ∧
      Evicts id (default.addEach id [(0, 3), (4096, 1), (8192, 2), (12288, 1)])
        ((default.addEach id [(0, 3), (4096, 1), (8192, 2), (12288, 1)]).add id 16384 5).1
        16384 5 ⟨4096, 1⟩ ∧
      ∀ i c, IsGreatest (((default : HashCounter ℕ).addEach id
          [(0, 3), (4096, 1), (8192, 2), (12288, 1)]).buckets i).counts c →
        ∃ c', IsGreatest ((default.addEach id
          ([(0, 3), (4096, 1), (8192, 2), (12288, 1)] ++ [(16384, 5)])).buckets i).counts c' ∧
            c ≤ c' := by
  have h := representation_and_eviction (fun (a b : ℕ) hab => congrArg id (eq_of_beq hab))
    [(0, 3), (4096, 1), (8192, 2), (12288, 1)]
  exact ⟨h.1, h.2.1 16384 5 ⟨4096, 1⟩ (by decide +kernel), h.2.2.1 [(16384, 5)] (by simp)⟩

end HashCounter

end Rpprof
