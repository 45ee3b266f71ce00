import Rpprof.Lib.Sums

/-!
# Tables with distinct keys

A hash map as its list of bindings.  Keys are compared by `==`, which need not be
equality: two keys may be the same key for the table and still differ as values,
and then the table keeps the one inserted first.  The order of the bindings is
whatever the insertions made it; nothing below depends on it.

## Main definitions

* `Table K V` — a list of bindings with pairwise different keys.
* `Table.get?`, `Table.insert`, `Table.modify`, `Table.erase` — the map operations.
* `Table.valueSum f m` — the sum of `f` over the values.

## Main results

* `Table.get?_insert`, `Table.get?_modify`, `Table.get?_erase` — what is found
  after each operation.
* `Table.valueSum_insert_of_none`, `Table.valueSum_modify`, `Table.valueSum_erase`
  — how each operation moves a sum over the values.
* `Table.valueSum_eq_sum` — such a sum as one over keys.
* `Table.insertAll_eq_classSum_iff` — when bindings inserted one after the other add up.
* `Table.size_le_of_image` — a table of images of another's keys is no larger.
-/

/-- A finite map kept as a list of bindings whose keys are pairwise different. -/
structure Table (K V : Type*) [BEq K] where
  /-- The bindings. -/
  entries : List (K × V)
  /-- No key is bound twice. -/
  distinct : entries.Pairwise fun p q => (p.1 == q.1) = false

/-- Keys that are numbers, by name, so that every table over them carries one proof. -/
instance Nat.equivBEq : EquivBEq ℕ := inferInstance

/-- Likewise for keys that may be negative. -/
instance Int.equivBEq : EquivBEq ℤ := inferInstance

/-- Likewise for keys that are strings. -/
instance String.equivBEq : EquivBEq String := equivBEq_of_iff_apply_eq id fun _ _ => beq_iff_eq

namespace Table

variable {K V : Type*} [BEq K]

/-- The first value bound to `k` in a list of bindings. -/
def find : List (K × V) → K → Option V
  | [], _ => none
  | p :: l, k => if p.1 == k then some p.2 else find l k

@[simp] theorem find_nil (k : K) : find ([] : List (K × V)) k = none := rfl

@[simp] theorem find_cons (p : K × V) (l : List (K × V)) (k : K) :
    find (p :: l) k = if p.1 == k then some p.2 else find l k := rfl

/-- The table that binds nothing. -/
def empty : Table K V := ⟨[], List.Pairwise.nil⟩

/-- The value bound to `k`. -/
def get? (m : Table K V) (k : K) : Option V := find m.entries k

/-- The number of bindings. -/
def size (m : Table K V) : ℕ := m.entries.length

/-- Apply `f` to the value of a binding of `k`; leave the other bindings alone. -/
def modifyEntry (k : K) (f : V → V) (p : K × V) : K × V := if p.1 == k then (p.1, f p.2) else p

@[simp] theorem modifyEntry_fst (k : K) (f : V → V) (p : K × V) :
    (modifyEntry k f p).1 = p.1 := by
  unfold modifyEntry; split <;> rfl

/-- Apply `f` to the value bound to `k`, if there is one. -/
def modify (m : Table K V) (k : K) (f : V → V) : Table K V where
  entries := m.entries.map (modifyEntry k f)
  distinct := List.pairwise_map.mpr (m.distinct.imp fun {p q} h => by simpa using h)

/-- Drop the binding of `k`. -/
def erase (m : Table K V) (k : K) : Table K V where
  entries := m.entries.filter fun p => !(p.1 == k)
  distinct := m.distinct.filter _

/-- Apply `f` to every value. -/
def mapValues {W : Type*} (f : V → W) (m : Table K V) : Table K W where
  entries := m.entries.map fun p => (p.1, f p.2)
  distinct := List.pairwise_map.mpr m.distinct

/-- The sum of `f` over the values of the table. -/
def valueSum {M : Type*} [AddCommMonoid M] (f : V → M) (m : Table K V) : M :=
  (m.entries.map fun p => f p.2).sum

@[simp] theorem get?_empty (k : K) : (empty : Table K V).get? k = none := rfl

@[simp] theorem valueSum_empty {M : Type*} [AddCommMonoid M] (f : V → M) :
    (empty : Table K V).valueSum f = 0 := rfl

theorem find_eq_none_iff (l : List (K × V)) (k : K) :
    find l k = none ↔ ∀ p ∈ l, (p.1 == k) = false := by
  induction l with
  | nil => simp
  | cons p l ih =>
    rw [find_cons, List.forall_mem_cons, ← ih]
    by_cases hpk : (p.1 == k) = true <;> simp [hpk]

theorem get?_eq_none_iff (m : Table K V) (k : K) :
    m.get? k = none ↔ ∀ p ∈ m.entries, (p.1 == k) = false :=
  find_eq_none_iff _ _

/-- A value found is the value of a binding whose key is the one looked for. -/
theorem exists_mem_of_get? {m : Table K V} {k : K} {v : V} (h : m.get? k = some v) :
    ∃ k', (k', v) ∈ m.entries ∧ (k' == k) = true := by
  obtain ⟨l, hd⟩ := m
  simp only [get?] at h ⊢
  clear hd
  induction l with
  | nil => cases h
  | cons p l ih =>
    rw [find_cons] at h
    split at h
    · next hpk =>
      rw [Option.some.injEq] at h
      exact ⟨p.1, List.mem_cons.mpr (Or.inl (Prod.ext rfl h.symm)), hpk⟩
    · obtain ⟨k', hmem, hk⟩ := ih h
      exact ⟨k', List.mem_cons_of_mem _ hmem, hk⟩

theorem get?_mapValues {W : Type*} (f : V → W) (m : Table K V) (k : K) :
    (m.mapValues f).get? k = (m.get? k).map f := by
  obtain ⟨l, hd⟩ := m
  simp only [get?, mapValues]
  clear hd
  induction l with
  | nil => rfl
  | cons p l ih =>
    rw [List.map_cons, find_cons, find_cons, ih]
    split <;> rfl

/-- Erasing a key that is not bound changes nothing. -/
theorem erase_of_none {m : Table K V} {k : K} (h : m.get? k = none) : m.erase k = m := by
  have hent : m.entries.filter (fun p => !(p.1 == k)) = m.entries := by
    refine List.filter_eq_self.mpr fun p hp => ?_
    simp [(get?_eq_none_iff m k).mp h p hp]
  obtain ⟨l, hd⟩ := m
  simp only [erase, mk.injEq]
  exact hent

section Equiv

variable [EquivBEq K]

/-- Bind `k` to `v`.  A key already present stays as it was inserted. -/
def insert (m : Table K V) (k : K) (v : V) : Table K V :=
  match h : m.get? k with
  | some _ => m.modify k fun _ => v
  | none =>
    { entries := (k, v) :: m.entries
      distinct := List.pairwise_cons.mpr
        ⟨fun p hp => by rw [BEq.comm, (get?_eq_none_iff m k).mp h p hp], m.distinct⟩ }

theorem entries_insert_of_none {m : Table K V} {k : K} (h : m.get? k = none) (v : V) :
    (m.insert k v).entries = (k, v) :: m.entries := by
  unfold insert
  split
  · next h' => rw [h] at h'; cases h'
  · rfl

theorem insert_of_some {m : Table K V} {k : K} {w : V} (h : m.get? k = some w) (v : V) :
    m.insert k v = m.modify k fun _ => v := by
  unfold insert
  split
  · rfl
  · next h' => rw [h] at h'; cases h'

/-! ### Lookups -/

/-- A binding of the table is what a lookup of its key finds. -/
theorem get?_of_mem {m : Table K V} {k : K} {v : V} (h : (k, v) ∈ m.entries) :
    m.get? k = some v := by
  obtain ⟨l, hd⟩ := m
  simp only [get?] at h ⊢
  induction l with
  | nil => cases h
  | cons p l ih =>
    rw [List.pairwise_cons] at hd
    rw [find_cons]
    rcases List.mem_cons.mp h with rfl | hmem
    · simp
    · simp [hd.1 _ hmem, ih hd.2 hmem]

/-- Lookups do not tell equivalent keys apart. -/
theorem get?_congr (m : Table K V) {a b : K} (h : (a == b) = true) : m.get? a = m.get? b := by
  obtain ⟨l, hd⟩ := m
  simp only [get?]
  clear hd
  induction l with
  | nil => rfl
  | cons p l ih => rw [find_cons, find_cons, ih, BEq.congr_right h]

theorem get?_modify (m : Table K V) (k a : K) (f : V → V) :
    (m.modify k f).get? a = if k == a then (m.get? a).map f else m.get? a := by
  obtain ⟨l, hd⟩ := m
  simp only [get?, modify]
  clear hd
  induction l with
  | nil => simp
  | cons p l ih =>
    rw [List.map_cons, find_cons, find_cons, modifyEntry_fst, ih]
    by_cases hpa : (p.1 == a) = true
    · have hk : (k == a) = (p.1 == k) := by rw [BEq.comm (a := p.1), BEq.congr_right hpa]
      rw [if_pos hpa, if_pos hpa, hk, modifyEntry]
      split <;> rfl
    · rw [if_neg hpa, if_neg hpa]

theorem get?_insert (m : Table K V) (k a : K) (v : V) :
    (m.insert k v).get? a = if k == a then some v else m.get? a := by
  cases h : m.get? k with
  | some w =>
    rw [insert_of_some h, get?_modify]
    split
    · next hka => rw [← get?_congr m hka, h, Option.map_some]
    · rfl
  | none => rw [get?, entries_insert_of_none h, find_cons, get?]

theorem get?_erase (m : Table K V) (k a : K) :
    (m.erase k).get? a = if k == a then none else m.get? a := by
  obtain ⟨l, hd⟩ := m
  simp only [get?, erase]
  clear hd
  induction l with
  | nil => simp
  | cons p l ih =>
    by_cases hpk : (p.1 == k) = true
    · rw [List.filter_cons_of_neg (by simp [hpk]), ih, find_cons, BEq.congr_left hpk]
      split <;> rfl
    · rw [List.filter_cons_of_pos (by simpa using hpk), find_cons, find_cons, ih]
      by_cases hpa : (p.1 == a) = true
      · have hka : (k == a) = false := by
          rw [← BEq.congr_right hpa, BEq.comm]
          simpa using hpk
        simp [hpa, hka]
      · rw [if_neg hpa, if_neg hpa]

/-! ### Sums over the values -/

variable {M : Type*} [AddCommMonoid M] (f : V → M)

theorem valueSum_insert_of_none {m : Table K V} {k : K} (h : m.get? k = none) (v : V) :
    (m.insert k v).valueSum f = f v + m.valueSum f := by
  rw [valueSum, entries_insert_of_none h]
  rfl

theorem atMostOne_key (m : Table K V) (k : K) :
    m.entries.AtMostOne fun p => p.1 == k := by
  refine m.distinct.imp fun {p q} hne ⟨hp, hq⟩ => ?_
  rw [BEq.trans hp (BEq.symm hq)] at hne
  cases hne

theorem valueSum_modify {m : Table K V} {k : K} {w : V} (h : m.get? k = some w) (g : V → V) :
    (m.modify k g).valueSum f + f w = m.valueSum f + f (g w) := by
  obtain ⟨k', hmem, hk⟩ := exists_mem_of_get? h
  have := List.sum_map_change (m.atMostOne_key k) hmem hk (fun p => (p.1, g p.2)) fun p => f p.2
  rw [valueSum, modify, List.map_map]
  exact this

theorem valueSum_insert_of_some {m : Table K V} {k : K} {w : V} (h : m.get? k = some w) (v : V) :
    (m.insert k v).valueSum f + f w = m.valueSum f + f v := by
  rw [insert_of_some h]
  exact valueSum_modify f h _

theorem valueSum_erase {m : Table K V} {k : K} {w : V} (h : m.get? k = some w) :
    (m.erase k).valueSum f + f w = m.valueSum f := by
  obtain ⟨k', hmem, hk⟩ := exists_mem_of_get? h
  exact List.sum_filter_not (m.atMostOne_key k) hmem hk fun p => f p.2

/-- A sum to which one binding alone contributes. -/
theorem valueSum_eq_of_unique {m : Table K V} {k : K} {w : V} (h : m.get? k = some w)
    (hzero : ∀ p ∈ m.entries, (p.1 == k) = false → f p.2 = 0) : m.valueSum f = f w := by
  have hrest : (m.erase k).valueSum f = 0 := by
    refine List.sum_eq_zero fun x hx => ?_
    obtain ⟨p, hp, rfl⟩ := List.mem_map.mp hx
    obtain ⟨hmem, hk⟩ := List.mem_filter.mp hp
    exact hzero p hmem (by simpa using hk)
  rw [← valueSum_erase f h, hrest, zero_add]

omit [EquivBEq K] in
/-- A sum over the values is one over any keys that include all that are bound. -/
theorem valueSum_eq_sum [LawfulBEq K] [DecidableEq K] (m : Table K V) {S : Finset K}
    (hS : ∀ k, m.get? k ≠ none → k ∈ S) :
    m.valueSum f = ∑ k ∈ S, ((m.get? k).map f).getD 0 := by
  obtain ⟨entries, distinct⟩ := m
  have hfind : ∀ l : List (K × V), (l.Pairwise fun p q => (p.1 == q.1) = false) →
      (∀ k, find l k ≠ none → k ∈ S) →
      (l.map fun p => f p.2).sum = ∑ k ∈ S, ((find l k).map f).getD 0 := by
    intro l
    induction l with
    | nil =>
      intro _ _
      exact (Finset.sum_eq_zero fun k _ => rfl).symm
    | cons p l ih =>
      intro hl hmem
      obtain ⟨hne, hl⟩ := List.pairwise_cons.mp hl
      have hnone : find l p.1 = none :=
        (find_eq_none_iff l p.1).mpr fun q hq => by rw [BEq.comm, hne q hq]
      have hp : p.1 ∈ S := by
        refine hmem p.1 ?_
        rw [find_cons, beq_self_eq_true]
        exact Option.some_ne_none _
      have hrest : ∀ k, find l k ≠ none → k ∈ S := by
        intro k hk
        refine hmem k ?_
        rw [find_cons]
        split
        · exact Option.some_ne_none _
        · exact hk
      -- the new key adds its own term, where there was none
      have hsplit : ∀ k ∈ S, ((find (p :: l) k).map f).getD 0 =
          (if p.1 = k then f p.2 else 0) + ((find l k).map f).getD 0 := by
        intro k _
        rw [find_cons]
        by_cases hk : p.1 = k
        · rw [if_pos (beq_iff_eq.mpr hk), if_pos hk, ← hk, hnone]
          exact (add_zero _).symm
        · rw [if_neg (by simpa using hk), if_neg hk, zero_add]
      rw [Finset.sum_congr rfl hsplit, Finset.sum_add_distrib, Finset.sum_ite_eq, if_pos hp,
        List.map_cons, List.sum_cons, ih hl hrest]
  exact hfind entries distinct hS

/-- A table's bindings sum to what it holds for each key. -/
theorem classSum_entries (m : Table K M) (k : K) :
    List.classSum k m.entries = (m.get? k).getD 0 := by
  cases hget : m.get? k with
  | none =>
    rw [get?_eq_none_iff] at hget
    refine List.sum_eq_zero fun x hx => ?_
    obtain ⟨p, hp, rfl⟩ := List.mem_map.mp hx
    rw [hget p hp]
    rfl
  | some v =>
    obtain ⟨k', hmem, hk⟩ := exists_mem_of_get? hget
    have hrest := List.sum_filter_not (m.atMostOne_key k) hmem hk
      fun p => if p.1 == k then p.2 else 0
    have hzero : ((m.entries.filter fun p => !(p.1 == k)).map fun p =>
        if p.1 == k then p.2 else 0).sum = 0 := by
      refine List.sum_eq_zero fun x hx => ?_
      obtain ⟨p, hp, rfl⟩ := List.mem_map.mp hx
      have hne := (List.mem_filter.mp hp).2
      rw [Bool.not_eq_true'] at hne
      rw [hne]
      rfl
    rw [hzero, zero_add] at hrest
    rw [List.classSum, ← hrest, Option.getD_some, if_pos hk]

/-! ### Insertions one after the other -/

/-- The bindings of a list, inserted in its order. -/
def insertAll (l : List (K × V)) : Table K V := l.foldl (fun m p => m.insert p.1 p.2) empty

theorem insertAll_concat (l : List (K × V)) (p : K × V) :
    insertAll (l ++ [p]) = (insertAll l).insert p.1 p.2 := by
  rw [insertAll, List.foldl_append]
  rfl

theorem get?_insertAll_eq_none_iff (l : List (K × V)) (k : K) :
    (insertAll l).get? k = none ↔ ∀ p ∈ l, (p.1 == k) = false := by
  induction l using List.reverseRecOn with
  | nil => exact ⟨fun _ p hp => absurd hp List.not_mem_nil, fun _ => rfl⟩
  | append_singleton l p ih =>
    rw [insertAll_concat, get?_insert, List.forall_mem_append, List.forall_mem_singleton, ← ih]
    by_cases hp : (p.1 == k) = true
    · simp [hp]
    · simp [hp]

/-- An insertion replaces: a table filled with positive values holds their sum for each key just
when no key comes twice. -/
theorem insertAll_eq_classSum_iff [PartialOrder M] [IsOrderedCancelAddMonoid M]
    {l : List (K × M)} (hpos : ∀ p ∈ l, 0 < p.2) :
    (∀ k, ((insertAll l).get? k).getD 0 = List.classSum k l) ↔
      l.Pairwise fun p q => (p.1 == q.1) = false := by
  induction l using List.reverseRecOn with
  | nil => exact ⟨fun _ => List.Pairwise.nil, fun _ k => rfl⟩
  | append_singleton l p ih =>
    rw [List.forall_mem_append, List.forall_mem_singleton] at hpos
    have ih := ih hpos.1
    have hsum : ∀ k, List.classSum k (l ++ [p]) =
        List.classSum k l + if p.1 == k then p.2 else 0 := by
      intro k
      rw [List.classSum, List.map_append, List.sum_append, List.map_singleton, List.sum_singleton]
      rfl
    rw [List.pairwise_append, and_iff_right (List.pairwise_singleton _ _)]
    simp only [List.mem_singleton, forall_eq, insertAll_concat, get?_insert, hsum]
    constructor
    · intro h
      -- what the last binding replaced was nothing
      have hzero : ∀ k, (p.1 == k) = true → List.classSum k l = 0 := by
        intro k hk
        have hself := h k
        rw [if_pos hk, if_pos hk, Option.getD_some] at hself
        exact right_eq_add.mp hself
      have hnone : ∀ k, (p.1 == k) = true → ∀ q ∈ l, (q.1 == k) = false :=
        fun k hk => (List.classSum_eq_zero_iff hpos.1 k).mp (hzero k hk)
      refine ⟨ih.mp fun k => ?_, hnone p.1 (BEq.refl _)⟩
      by_cases hk : (p.1 == k) = true
      · rw [hzero k hk, (get?_insertAll_eq_none_iff l k).mpr (hnone k hk), Option.getD_none]
      · have hrest := h k
        rw [if_neg hk, if_neg hk, add_zero] at hrest
        exact hrest
    · rintro ⟨hdistinct, hkey⟩ k
      by_cases hk : (p.1 == k) = true
      · have hzero : List.classSum k l = 0 := by
          refine (List.classSum_eq_zero_iff hpos.1 k).mpr fun q hq => ?_
          rw [← BEq.congr_right hk]
          exact hkey q hq
        rw [if_pos hk, if_pos hk, Option.getD_some, hzero, zero_add]
      · rw [if_neg hk, if_neg hk, add_zero]
        exact ih.mpr hdistinct k

/-- A table whose keys are all images of another's keys is no larger. -/
theorem size_le_of_image {K' V' : Type*} [BEq K'] {m : Table K V} {m' : Table K' V'} (g : K' → K)
    (h : ∀ p ∈ m.entries, ∃ p' ∈ m'.entries, (g p'.1 == p.1) = true) : m.size ≤ m'.size := by
  cases hentries : m.entries with
  | nil =>
    rw [size, hentries]
    exact Nat.zero_le _
  | cons p₀ l =>
    obtain ⟨p₀', -, -⟩ := h p₀ (by rw [hentries]; exact List.mem_cons_self)
    have : Nonempty (K' × V') := ⟨p₀'⟩
    choose! pick hpick using h
    -- keys that are told apart have different preimages
    have hnodup : (m.entries.map pick).Nodup := by
      rw [List.Nodup, List.pairwise_map]
      refine m.distinct.imp_of_mem fun {p q} hp hq hne heq => ?_
      have hpq := BEq.trans (BEq.symm (hpick p hp).2) (heq ▸ (hpick q hq).2)
      rw [hpq] at hne
      cases hne
    have hsub : m.entries.map pick ⊆ m'.entries := by
      intro p' hp'
      obtain ⟨p, hp, rfl⟩ := List.mem_map.mp hp'
      exact (hpick p hp).1
    have hle := (List.subperm_of_subset hnodup hsub).length_le
    rwa [List.length_map] at hle

end Equiv

end Table
