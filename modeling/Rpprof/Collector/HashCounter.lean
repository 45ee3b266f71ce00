import Rpprof.Lib.Sums

/-!
# The hash counter

The fixed-size first level of the collector: `buckets` buckets of at most
`bucketsAssociativity` entries each.  Adding to a key that is resident bumps its
entry, adding a new key takes a free slot, and a new key that meets a full bucket
takes the slot of the smallest entry, which is handed back to the caller.

Keys are compared by `==`, an equivalence that may be coarser than equality
(`UnresolvedFrames` ignores its thread name and timestamp).

## Main definitions

* `Entry`, `Bucket`, `HashCounter` — the data; a bucket carries its capacity bound
  and the distinctness of its keys.
* `Bucket.add`, `HashCounter.add`, `HashCounter.iter` — the operations.
* `tally k l` — the sum of the counts of `k` in a list of entries.

## Main results

* `HashCounter.tally_add` — **an `add` moves the tally of every key by exactly what
  was added**, counting what it evicted.
-/

namespace Rpprof

/-- `BUCKETS`. -/
def buckets : ℕ := 2 ^ 12

/-- `BUCKETS_ASSOCIATIVITY`. -/
def bucketsAssociativity : ℕ := 4

theorem buckets_pos : 0 < buckets := by decide

/-- A key and the count collected for it. -/
structure Entry (T : Type*) where
  /-- The key. -/
  item : T
  /-- Its count, an `isize`. -/
  count : ℤ
  deriving DecidableEq, Repr

variable {T : Type*} [BEq T]

/-- The keys of the entries are pairwise different. -/
def DistinctItems (l : List (Entry T)) : Prop := l.Pairwise fun a b => (a.item == b.item) = false

/-- A bucket: the entries below `length`, in slot order. -/
structure Bucket (T : Type*) [BEq T] where
  /-- `entries[0..length]`. -/
  entries : List (Entry T)
  /-- The slots suffice. -/
  length_le : entries.length ≤ bucketsAssociativity
  /-- No key is resident twice. -/
  distinct : DistinctItems entries

/-- What an entry holds for `k`. -/
def Entry.countOf (k : T) (e : Entry T) : ℤ := if e.item == k then e.count else 0

/-- The sum of the counts of the entries of `k`. -/
def tally (k : T) (l : List (Entry T)) : ℤ := (l.map (Entry.countOf k)).sum

@[simp] theorem tally_nil (k : T) : tally k ([] : List (Entry T)) = 0 := rfl

@[simp] theorem tally_cons (k : T) (e : Entry T) (l : List (Entry T)) :
    tally k (e :: l) = e.countOf k + tally k l := by
  simp [tally]

@[simp] theorem tally_append (k : T) (l l' : List (Entry T)) :
    tally k (l ++ l') = tally k l + tally k l' := by
  simp [tally]

/-! ### One bucket -/

namespace Bucket

/-- The empty bucket. -/
def default : Bucket T := ⟨[], by simp, List.Pairwise.nil⟩

/-- The scan of `add`: every entry of `key` gets `count` more. -/
def bump (key : T) (count : ℤ) (ele : Entry T) : Entry T :=
  if ele.item == key then { ele with count := ele.count + count } else ele

@[simp] theorem bump_item (key : T) (count : ℤ) (ele : Entry T) :
    (bump key count ele).item = ele.item := by
  unfold bump; split <;> rfl

/-- The minimum search of `add`, from slot `index` on: `count < min_count` moves the
minimum, so the first of several least entries is the one found. -/
def minSearch : List (Entry T) → ℕ → ℕ → ℤ → ℕ
  | [], _, minIndex, _ => minIndex
  | e :: es, index, minIndex, minCount =>
    if e.count < minCount then minSearch es (index + 1) index e.count
    else minSearch es (index + 1) minIndex minCount

/-- The slot of the smallest entry; the search starts from slot `0`. -/
def minIndex : List (Entry T) → ℕ
  | [] => 0
  | e :: es => minSearch (e :: es) 0 0 e.count

omit [BEq T] in
theorem minSearch_lt : ∀ (l : List (Entry T)) (index minIndex : ℕ) (minCount : ℤ),
    minIndex < index + l.length → minSearch l index minIndex minCount < index + l.length := by
  intro l
  induction l with
  | nil => intro index minIndex minCount h; exact h
  | cons e es ih =>
    intro index minIndex minCount h
    rw [List.length_cons] at h ⊢
    rw [minSearch]
    have hcomm : index + (es.length + 1) = index + 1 + es.length := by omega
    rw [hcomm] at h ⊢
    split
    · -- the minimum moves to this slot, which is in range
      apply ih
      omega
    · apply ih
      exact h

omit [BEq T] in
theorem minIndex_lt {l : List (Entry T)} (h : l ≠ []) : minIndex l < l.length := by
  cases l with
  | nil => exact absurd rfl h
  | cons e es =>
    have h0 := minSearch_lt (e :: es) 0 0 e.count (by simp)
    rwa [Nat.zero_add] at h0

/-- Bumping keeps the keys. -/
theorem distinct_bump (b : Bucket T) (key : T) (count : ℤ) :
    DistinctItems (b.entries.map (bump key count)) :=
  List.pairwise_map.mpr (b.distinct.imp fun {x y} h => by simpa using h)

omit [BEq T] in
theorem ne_nil_of_full {l : List (Entry T)} (h : ¬l.length < bucketsAssociativity) : l ≠ [] := by
  rintro rfl
  exact h (show 0 < 4 by decide)

/-- The keys of the bucket are not `key`. -/
def Lacks (b : Bucket T) (key : T) : Prop := ∀ e ∈ b.entries, (e.item == key) = false

theorem lacks_of_not_any {b : Bucket T} {key : T}
    (h : ¬b.entries.any (fun e => e.item == key) = true) : b.Lacks key := by
  intro e he
  by_contra hne
  exact h (List.any_eq_true.mpr ⟨e, he, by simpa using hne⟩)

/-- A new key after the others. -/
theorem distinct_push {b : Bucket T} {key : T} (h : b.Lacks key) (count : ℤ) :
    DistinctItems (b.entries ++ [⟨key, count⟩]) := by
  refine List.pairwise_append.mpr ⟨b.distinct, List.pairwise_singleton _ _, fun e he e' he' => ?_⟩
  rw [List.mem_singleton] at he'
  subst he'
  exact h e he

section Equiv

variable [EquivBEq T]

/-- A new key in the place of another. -/
theorem distinct_set {key : T} (count : ℤ) : ∀ {l : List (Entry T)}, DistinctItems l →
    (∀ e ∈ l, (e.item == key) = false) → ∀ i, DistinctItems (l.set i ⟨key, count⟩)
  | [], _, _, _ => by simp [DistinctItems]
  | a :: l, hd, h, 0 => by
    refine List.pairwise_cons.mpr ⟨fun e he => ?_, (List.pairwise_cons.mp hd).2⟩
    rw [BEq.comm]
    exact h e (List.mem_cons_of_mem _ he)
  | a :: l, hd, h, i + 1 => by
    have hd' := List.pairwise_cons.mp hd
    refine List.pairwise_cons.mpr ⟨fun e he => ?_,
      distinct_set count hd'.2 (fun e he => h e (List.mem_cons_of_mem _ he)) i⟩
    rcases List.mem_or_eq_of_mem_set he with hmem | rfl
    · exact hd'.1 e hmem
    · exact h a List.mem_cons_self

/-- `Bucket::add`: bump the key if it is resident, else take a free slot, else put the
new entry in the slot of the smallest one and return that. -/
def add (b : Bucket T) (key : T) (count : ℤ) : Bucket T × Option (Entry T) :=
  if hdone : b.entries.any fun ele => ele.item == key then
    ({ entries := b.entries.map (bump key count)
       length_le := by rw [List.length_map]; exact b.length_le
       distinct := b.distinct_bump key count }, none)
  else if hroom : b.entries.length < bucketsAssociativity then
    ({ entries := b.entries ++ [⟨key, count⟩]
       length_le := by rw [List.length_append]; exact hroom
       distinct := distinct_push (lacks_of_not_any hdone) count }, none)
  else
    -- full: the new entry is swapped with the smallest one
    have hmin : minIndex b.entries < b.entries.length :=
      minIndex_lt (ne_nil_of_full hroom)
    ({ entries := b.entries.set (minIndex b.entries) ⟨key, count⟩
       length_le := by rw [List.length_set]; exact b.length_le
       distinct := distinct_set count b.distinct (lacks_of_not_any hdone) _ },
      some b.entries[minIndex b.entries])

/-- What one `add` can do, said once: a hit, a fresh slot, or an eviction. -/
theorem add_cases (b : Bucket T) (key : T) (count : ℤ) :
    ((∃ e ∈ b.entries, (e.item == key) = true) ∧ (b.add key count).2 = none ∧
      (b.add key count).1.entries = b.entries.map (bump key count)) ∨
    (b.Lacks key ∧ b.entries.length < bucketsAssociativity ∧ (b.add key count).2 = none ∧
      (b.add key count).1.entries = b.entries ++ [⟨key, count⟩]) ∨
    (b.Lacks key ∧ b.entries.length = bucketsAssociativity ∧
      ∃ h : minIndex b.entries < b.entries.length,
        (b.add key count).2 = some b.entries[minIndex b.entries] ∧
        (b.add key count).1.entries = b.entries.set (minIndex b.entries) ⟨key, count⟩) := by
  unfold add
  split
  · next hdone =>
    exact Or.inl ⟨List.any_eq_true.mp hdone, rfl, rfl⟩
  · next hdone =>
    split
    · next hroom => exact Or.inr (Or.inl ⟨lacks_of_not_any hdone, hroom, rfl, rfl⟩)
    · next hroom =>
      have hfull : b.entries.length = bucketsAssociativity := by
        have := b.length_le
        omega
      exact Or.inr (Or.inr ⟨lacks_of_not_any hdone, hfull, minIndex_lt (ne_nil_of_full hroom),
        rfl, rfl⟩)

/-! ### The tally of one bucket -/

theorem tally_map_bump (b : Bucket T) {key : T} (h : ∃ e ∈ b.entries, (e.item == key) = true)
    (count : ℤ) (k : T) :
    tally k (b.entries.map (bump key count)) =
      tally k b.entries + if key == k then count else 0 := by
  obtain ⟨e, he, hkey⟩ := h
  -- the keys are distinct, so one entry is bumped and no other
  have hone : b.entries.AtMostOne fun ele => ele.item == key := by
    refine b.distinct.imp fun {x y} hne ⟨hx, hy⟩ => ?_
    rw [BEq.trans hx (BEq.symm hy)] at hne
    cases hne
  have hsum := List.sum_map_change hone he hkey
    (fun ele => ({ ele with count := ele.count + count } : Entry T)) (Entry.countOf k)
  have hmove : Entry.countOf k { e with count := e.count + count } =
      e.countOf k + if key == k then count else 0 := by
    simp only [Entry.countOf, BEq.congr_left hkey]
    split <;> simp
  rw [hmove] at hsum
  have hmap : tally k (b.entries.map (bump key count)) =
      (b.entries.map fun ele => Entry.countOf k
        (if ele.item == key then { ele with count := ele.count + count } else ele)).sum := by
    rw [tally, List.map_map]
    rfl
  rw [hmap, tally]
  omega

/-- **One `add` moves the tally of every key by what was added**, the evicted entry
included. -/
theorem tally_add (b : Bucket T) (key : T) (count : ℤ) (k : T) :
    tally k (b.add key count).1.entries + tally k (b.add key count).2.toList =
      tally k b.entries + if key == k then count else 0 := by
  rcases b.add_cases key count with ⟨hhit, hev, hent⟩ | ⟨-, -, hev, hent⟩ | ⟨-, -, hmin, hev, hent⟩
  · -- a hit: nothing comes out
    rw [hev, hent, b.tally_map_bump hhit]
    simp
  · -- a free slot
    rw [hev, hent]
    simp [Entry.countOf]
  · rw [hev, hent]
    have hset := List.sum_map_set (Entry.countOf k) b.entries _ hmin ⟨key, count⟩
    simpa [tally, Entry.countOf] using hset

/-- An entry in or out of a bucket after an `add` was there before, or was bumped, or
is the new one. -/
theorem mem_add {b : Bucket T} {key : T} {count : ℤ} {e : Entry T}
    (h : e ∈ (b.add key count).1.entries ∨ e ∈ (b.add key count).2.toList) :
    e ∈ b.entries ∨ (∃ e' ∈ b.entries, (e'.item == key) = true ∧
      e = ⟨e'.item, e'.count + count⟩) ∨ e = ⟨key, count⟩ := by
  rcases b.add_cases key count with ⟨-, hev, hent⟩ | ⟨-, -, hev, hent⟩ | ⟨-, -, hmin, hev, hent⟩
  · rw [hev, hent] at h
    simp only [Option.toList_none, List.not_mem_nil, or_false, List.mem_map] at h
    obtain ⟨e', he', rfl⟩ := h
    unfold bump
    split
    · next hk => exact Or.inr (Or.inl ⟨e', he', hk, rfl⟩)
    · exact Or.inl he'
  · rw [hev, hent] at h
    simp only [Option.toList_none, List.not_mem_nil, or_false, List.mem_append,
      List.mem_singleton] at h
    exact h.imp_right Or.inr
  · rw [hev, hent] at h
    rcases h with h | h
    · exact (List.mem_or_eq_of_mem_set h).imp_right Or.inr
    · rw [Option.toList_some, List.mem_singleton] at h
      exact Or.inl (h ▸ List.getElem_mem hmin)

/-- What was in a bucket is still in it after an `add`, under the same item, or comes out. -/
theorem item_add {b : Bucket T} (key : T) (count : ℤ) {e : Entry T} (he : e ∈ b.entries) :
    ∃ e', (e' ∈ (b.add key count).1.entries ∨ e' ∈ (b.add key count).2.toList) ∧
      e'.item = e.item := by
  rcases b.add_cases key count with ⟨-, -, hent⟩ | ⟨-, -, -, hent⟩ | ⟨-, -, hmin, hev, hent⟩
  · rw [hent]
    exact ⟨bump key count e, Or.inl (List.mem_map_of_mem he), bump_item key count e⟩
  · rw [hent]
    exact ⟨e, Or.inl (List.mem_append_left _ he), rfl⟩
  · rw [hev, hent]
    obtain ⟨j, hj, rfl⟩ := List.getElem_of_mem he
    by_cases hjmin : j = minIndex b.entries
    · subst hjmin
      exact ⟨_, Or.inr (List.mem_singleton_self _), rfl⟩
    · refine ⟨b.entries[j], Or.inl ?_, rfl⟩
      have hj' : j < (b.entries.set (minIndex b.entries) ⟨key, count⟩).length := by
        rw [List.length_set]
        exact hj
      have hstays : (b.entries.set (minIndex b.entries) ⟨key, count⟩)[j] = b.entries[j] :=
        List.getElem_set_ne (Ne.symm hjmin) _
      rw [← hstays]
      exact List.getElem_mem _

/-- The key that was added is resident after an `add`. -/
theorem key_add (b : Bucket T) (key : T) (count : ℤ) :
    ∃ e ∈ (b.add key count).1.entries, (e.item == key) = true := by
  rcases b.add_cases key count with ⟨⟨e, he, hk⟩, -, hent⟩ | ⟨-, -, -, hent⟩ | ⟨-, -, hmin, -, hent⟩
  · rw [hent]
    exact ⟨bump key count e, List.mem_map_of_mem he, by rw [bump_item]; exact hk⟩
  · rw [hent]
    exact ⟨⟨key, count⟩, List.mem_append_right _ (List.mem_singleton_self _), BEq.refl key⟩
  · rw [hent]
    exact ⟨⟨key, count⟩, List.mem_set hmin _, BEq.refl key⟩

end Equiv

end Bucket

/-! ### All buckets -/

/-- The buckets of the counter. -/
structure HashCounter (T : Type*) [BEq T] where
  /-- `buckets`. -/
  buckets : Fin buckets → Bucket T

namespace HashCounter

/-- `HashCounter::default`. -/
def default : HashCounter T := ⟨fun _ => Bucket.default⟩

/-- `HashCounter::iter`: the entries, bucket after bucket. -/
def iter (h : HashCounter T) : List (Entry T) :=
  (List.finRange Rpprof.buckets).flatMap fun i => (h.buckets i).entries

/-- The bucket of a key: `hash_value % BUCKETS`. -/
def index (hash : T → ℕ) (key : T) : Fin Rpprof.buckets :=
  ⟨hash key % Rpprof.buckets, Nat.mod_lt _ buckets_pos⟩

variable [EquivBEq T]

/-- `HashCounter::add`. -/
def add (hash : T → ℕ) (h : HashCounter T) (key : T) (count : ℤ) :
    HashCounter T × Option (Entry T) :=
  let r := (h.buckets (index hash key)).add key count
  (⟨Function.update h.buckets (index hash key) r.1⟩, r.2)

omit [EquivBEq T] in
theorem tally_iter (h : HashCounter T) (k : T) :
    tally k h.iter = ∑ i, tally k (h.buckets i).entries := by
  rw [Fin.sum_univ_def, iter]
  induction List.finRange Rpprof.buckets with
  | nil => rfl
  | cons i l ih => rw [List.flatMap_cons, tally_append, ih, List.map_cons, List.sum_cons]

omit [EquivBEq T] in
@[simp] theorem tally_iter_default (k : T) : tally k (default : HashCounter T).iter = 0 := by
  simp [tally_iter, default, Bucket.default]

/-- **An `add` moves the tally of every key by exactly what was added**, counting
the entry it evicted. -/
theorem tally_add (hash : T → ℕ) (h : HashCounter T) (key : T) (count : ℤ) (k : T) :
    tally k (h.add hash key count).1.iter + tally k (h.add hash key count).2.toList =
      tally k h.iter + if key == k then count else 0 := by
  have hsum := Finset.sum_apply_update (fun b : Bucket T => tally k b.entries) h.buckets
    (index hash key) ((h.buckets (index hash key)).add key count).1
  have hbucket := (h.buckets (index hash key)).tally_add key count k
  simp only [tally_iter, add] at hsum hbucket ⊢
  omega

omit [EquivBEq T] in
theorem mem_iter {h : HashCounter T} {e : Entry T} :
    e ∈ h.iter ↔ ∃ i, e ∈ (h.buckets i).entries := by
  simp [iter]

/-- The same for the whole counter. -/
theorem mem_add {hash : T → ℕ} {h : HashCounter T} {key : T} {count : ℤ} {e : Entry T}
    (he : e ∈ (h.add hash key count).1.iter ∨ e ∈ (h.add hash key count).2.toList) :
    e ∈ h.iter ∨ (∃ e' ∈ h.iter, (e'.item == key) = true ∧
      e = ⟨e'.item, e'.count + count⟩) ∨ e = ⟨key, count⟩ := by
  have hbucket : e ∈ h.iter ∨ e ∈ ((h.buckets (index hash key)).add key count).1.entries ∨
      e ∈ ((h.buckets (index hash key)).add key count).2.toList := by
    rcases he with he | he
    · obtain ⟨i, hi⟩ := mem_iter.mp he
      simp only [add, Function.update_apply] at hi
      split at hi
      · exact Or.inr (Or.inl hi)
      · exact Or.inl (mem_iter.mpr ⟨i, hi⟩)
    · exact Or.inr (Or.inr he)
  rcases hbucket with hold | hnew
  · exact Or.inl hold
  · rcases Bucket.mem_add hnew with hmem | ⟨e', hmem, hk, heq⟩ | heq
    · exact Or.inl (mem_iter.mpr ⟨_, hmem⟩)
    · exact Or.inr (Or.inl ⟨e', mem_iter.mpr ⟨_, hmem⟩, hk, heq⟩)
    · exact Or.inr (Or.inr heq)

/-- No item is lost to an `add`. -/
theorem item_add (hash : T → ℕ) {h : HashCounter T} (key : T) (count : ℤ) {e : Entry T}
    (he : e ∈ h.iter) : ∃ e', (e' ∈ (h.add hash key count).1.iter ∨
      e' ∈ (h.add hash key count).2.toList) ∧ e'.item = e.item := by
  obtain ⟨i, hi⟩ := mem_iter.mp he
  by_cases hindex : i = index hash key
  · subst hindex
    obtain ⟨e', hmem, hitem⟩ := Bucket.item_add key count hi
    refine ⟨e', hmem.imp (fun hin => mem_iter.mpr ⟨index hash key, ?_⟩) id, hitem⟩
    show e' ∈ (Function.update h.buckets (index hash key) _ (index hash key)).entries
    rw [Function.update_self]
    exact hin
  · refine ⟨e, Or.inl (mem_iter.mpr ⟨i, ?_⟩), rfl⟩
    show e ∈ (Function.update h.buckets (index hash key) _ i).entries
    rw [Function.update_of_ne hindex]
    exact hi

/-- The key that was added is resident. -/
theorem key_add (hash : T → ℕ) (h : HashCounter T) (key : T) (count : ℤ) :
    ∃ e ∈ (h.add hash key count).1.iter, (e.item == key) = true := by
  obtain ⟨e, he, hk⟩ := (h.buckets (index hash key)).key_add key count
  refine ⟨e, mem_iter.mpr ⟨index hash key, ?_⟩, hk⟩
  show e ∈ (Function.update h.buckets (index hash key) _ (index hash key)).entries
  rw [Function.update_self]
  exact he

end HashCounter

end Rpprof
