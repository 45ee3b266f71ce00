import Mathlib.Data.List.Forall2
import Rpprof.Lib.Table

/-!
# Interning

A list of different keys and a map that gives the place of each: what a loop keeps that
numbers what it meets in the order of first occurrence.  Numbers may start anywhere.

## Main definitions

* `Interns base m keys` — `m` numbers the keys of the list, from `base` on.
* `Table.ofIndices keys` — the map from what is in a list to its last place.

## Main results

* `Interns.insert` — a key that is not there gets the next number.
* `Interns.nodup` — no key is there twice.
* `Table.exists_get?_ofIndices` — whatever is in the list has a place.
* `List.mapM_eq_some_iff`, `List.find?_mapIdx` — resolving references by number.
-/

/-- A list of references is resolved one by one. -/
theorem List.mapM_eq_some_iff {α β : Type*} (f : α → Option β) (l : List α) : ∀ l' : List β,
    l.mapM f = some l' ↔ List.Forall₂ (fun a b => f a = some b) l l' := by
  induction l with
  | nil =>
    intro l'
    rw [List.mapM_nil, List.forall₂_nil_left_iff]
    exact ⟨fun h => (Option.some.inj h).symm, fun h => congrArg some h.symm⟩
  | cons a l ih =>
    intro l'
    rw [List.forall₂_cons_left_iff]
    simp only [List.mapM_cons, Option.bind_eq_bind, Option.bind_eq_some_iff, Option.pure_def,
      Option.some.injEq, ih]
    constructor
    · rintro ⟨b, hb, rest, hrest, rfl⟩
      exact ⟨b, rest, hb, hrest, rfl⟩
    · rintro ⟨b, rest, hb, hrest, rfl⟩
      exact ⟨b, hb, rest, hrest, rfl⟩

/-- References that all resolve are none of them left out. -/
theorem List.filterMap_of_mapM {α β : Type*} {f : α → Option β} {l : List α} {l' : List β}
    (h : l.mapM f = some l') : l.filterMap f = l' := by
  rw [mapM_eq_some_iff] at h
  induction h with
  | nil => rfl
  | cons hab _ ih => rw [filterMap_cons_some hab, ih]

/-- What is written element by element is read back. -/
theorem List.mapM_map_eq_some {α β : Type*} {f : α → β} {g : β → Option α}
    (h : ∀ a, g (f a) = some a) (l : List α) : (l.map f).mapM g = some l := by
  rw [List.mapM_eq_some_iff, List.forall₂_map_left_iff, List.forall₂_same]
  exact fun a _ => h a

/-- What stands on the right of a pairing stands beside something on the left. -/
theorem List.Forall₂.exists_left {α β : Type*} {R : α → β → Prop} {l : List α} {l' : List β}
    (h : List.Forall₂ R l l') {b : β} (hb : b ∈ l') : ∃ a ∈ l, R a b := by
  induction h with
  | nil => cases hb
  | cons hab _ ih =>
    rcases List.mem_cons.mp hb with rfl | htail
    · exact ⟨_, List.mem_cons_self, hab⟩
    · obtain ⟨a, ha, hR⟩ := ih htail
      exact ⟨a, List.mem_cons_of_mem _ ha, hR⟩

/-- What stands on the left stands beside something on the right. -/
theorem List.Forall₂.exists_right {α β : Type*} {R : α → β → Prop} {l : List α} {l' : List β}
    (h : List.Forall₂ R l l') {a : α} (ha : a ∈ l) : ∃ b ∈ l', R a b :=
  h.flip.exists_left ha

/-- Two pairings, one after the other. -/
theorem List.Forall₂.comp {α β γ : Type*} {R : α → β → Prop} {S : β → γ → Prop} {l : List α}
    {l' : List β} {l'' : List γ} (h : List.Forall₂ R l l') (h' : List.Forall₂ S l' l'') :
    List.Forall₂ (fun a c => ∃ b, R a b ∧ S b c) l l'' := by
  induction h generalizing l'' with
  | nil =>
    cases h'
    exact .nil
  | cons hR _ ih =>
    cases h' with
    | cons hS h' => exact .cons ⟨_, hR, hS⟩ (ih h')

/-! ### Numbered lists -/

/-- A list whose elements carry their numbers is searched by number. -/
theorem List.find?_mapIdx {α β : Type*} (key : β → ℕ) (l : List α) : ∀ (base : ℕ) (g : ℕ → α → β),
    (∀ i a, key (g i a) = base + i) → ∀ j : ℕ,
      (l.mapIdx g).find? (fun b => key b == base + j) = (l[j]?).map (g j) := by
  induction l with
  | nil => exact fun base g hg j => rfl
  | cons a l ih =>
    intro base g hg j
    rw [List.mapIdx_cons]
    cases j with
    | zero => rw [List.find?_cons_of_pos (by simp [hg]), List.getElem?_cons_zero, Option.map_some]
    | succ j =>
      have hnum : ∀ i b, key (g (i + 1) b) = base + 1 + i := fun i b => by rw [hg]; omega
      have hbase : base + (j + 1) = base + 1 + j := by omega
      rw [List.find?_cons_of_neg (by simp [hg]), List.getElem?_cons_succ, hbase]
      exact ih (base + 1) (fun i => g (i + 1)) hnum j

/-- The numbers of a list whose elements carry them. -/
theorem List.map_mapIdx_key {α β : Type*} (key : β → ℕ) (l : List α) : ∀ (base : ℕ)
    (g : ℕ → α → β), (∀ i a, key (g i a) = base + i) →
      (l.mapIdx g).map key = List.range' base l.length := by
  induction l with
  | nil => exact fun base g hg => rfl
  | cons a l ih =>
    intro base g hg
    have hnum : ∀ i b, key (g (i + 1) b) = base + 1 + i := fun i b => by rw [hg]; omega
    rw [List.mapIdx_cons, List.map_cons, ih (base + 1) (fun i => g (i + 1)) hnum, hg,
      List.length_cons, List.range'_succ, Nat.add_zero]

/-! ### Interning -/

variable {K : Type*} [BEq K] [LawfulBEq K]

/-- The map numbers the keys of the list in order, and knows no others. -/
def Interns (base : ℕ) (m : Table K ℕ) (keys : List K) : Prop :=
  ∀ k i, m.get? k = some i ↔ ∃ j, keys[j]? = some k ∧ i = base + j

namespace Interns

variable {base : ℕ} {m : Table K ℕ} {keys : List K}

omit [LawfulBEq K] in
theorem empty (base : ℕ) : Interns base (Table.empty : Table K ℕ) [] := by
  intro k i
  simp

omit [LawfulBEq K] in
theorem get?_of_getElem? (h : Interns base m keys) {j : ℕ} {k : K} (hj : keys[j]? = some k) :
    m.get? k = some (base + j) :=
  (h k (base + j)).mpr ⟨j, hj, rfl⟩

omit [LawfulBEq K] in
theorem not_mem (h : Interns base m keys) {k : K} (hk : m.get? k = none) : k ∉ keys := by
  intro hmem
  obtain ⟨j, hj⟩ := List.getElem?_of_mem hmem
  rw [h.get?_of_getElem? hj] at hk
  cases hk

omit [LawfulBEq K] in
/-- No key is there twice: it would have two numbers. -/
theorem nodup (h : Interns base m keys) : keys.Nodup := by
  rw [List.nodup_iff_injective_getElem]
  intro i j hij
  have hi : m.get? keys[i] = some (base + i) :=
    h.get?_of_getElem? (List.getElem?_eq_getElem i.isLt)
  have hj : m.get? keys[j] = some (base + j) :=
    h.get?_of_getElem? (List.getElem?_eq_getElem j.isLt)
  have hsame : keys[i] = keys[j] := hij
  rw [hsame, hj, Option.some.injEq] at hi
  apply Fin.ext
  omega

/-- **A key that is not there gets the next number.** -/
theorem insert (h : Interns base m keys) {k : K} (hk : m.get? k = none) :
    Interns base (m.insert k (base + keys.length)) (keys ++ [k]) := by
  intro k' i
  rw [Table.get?_insert]
  by_cases hkk : k = k'
  · subst hkk
    rw [if_pos (BEq.refl k), Option.some.injEq]
    constructor
    · rintro rfl
      exact ⟨keys.length, List.getElem?_concat_length, rfl⟩
    · rintro ⟨j, hj, rfl⟩
      -- it stands nowhere before the end
      have hlt : j < keys.length + 1 := by
        have hbound := (List.getElem?_eq_some_iff.mp hj).1
        rwa [List.length_append, List.length_singleton] at hbound
      have hge : ¬j < keys.length := by
        intro hj'
        rw [List.getElem?_append_left hj'] at hj
        exact h.not_mem hk (List.mem_of_getElem? hj)
      omega
  · rw [if_neg (by simpa using hkk), h k' i]
    constructor
    · rintro ⟨j, hj, rfl⟩
      refine ⟨j, ?_, rfl⟩
      rw [List.getElem?_append_left (List.getElem?_eq_some_iff.mp hj).1]
      exact hj
    · rintro ⟨j, hj, rfl⟩
      rcases lt_or_ge j keys.length with hlt | hge
      · rw [List.getElem?_append_left hlt] at hj
        exact ⟨j, hj, rfl⟩
      · rw [List.getElem?_append_right hge] at hj
        have hmem := List.mem_of_getElem? hj
        exact absurd (List.mem_singleton.mp hmem).symm hkk

end Interns

namespace Table

/-- The map from what is in a list to its index, where a later one replaces an earlier one. -/
def ofIndices (keys : List K) : Table K ℕ :=
  keys.zipIdx.foldl (fun m p => m.insert p.1 p.2) Table.empty

theorem get?_foldl_insert (l : List (K × ℕ)) : ∀ (m : Table K ℕ) (k : K) (i : ℕ),
    (l.foldl (fun m p => m.insert p.1 p.2) m).get? k = some i →
      m.get? k = some i ∨ (k, i) ∈ l := by
  induction l with
  | nil => exact fun m k i h => Or.inl h
  | cons p l ih =>
    intro m k i h
    rcases ih _ k i h with hold | hmem
    · rw [get?_insert] at hold
      split at hold
      · next hk =>
        rw [Option.some.injEq] at hold
        rw [← hold, ← eq_of_beq hk]
        exact Or.inr List.mem_cons_self
      · exact Or.inl hold
    · exact Or.inr (List.mem_cons_of_mem p hmem)

theorem isSome_get?_foldl_insert (l : List (K × ℕ)) : ∀ (m : Table K ℕ) (k : K),
    ((m.get? k).isSome = true ∨ ∃ i, (k, i) ∈ l) →
      ((l.foldl (fun m p => m.insert p.1 p.2) m).get? k).isSome = true := by
  induction l with
  | nil =>
    rintro m k (h | ⟨i, hi⟩)
    · exact h
    · cases hi
  | cons p l ih =>
    intro m k h
    apply ih
    rw [get?_insert]
    by_cases hk : (p.1 == k) = true
    · rw [if_pos hk]
      exact Or.inl rfl
    · rw [if_neg hk]
      rcases h with hold | ⟨i, hi⟩
      · exact Or.inl hold
      · refine Or.inr ⟨i, (List.mem_cons.mp hi).resolve_left ?_⟩
        rintro rfl
        exact hk (BEq.refl k)

/-- What is found is a place of the key in the list. -/
theorem getElem?_of_get?_ofIndices {keys : List K} {k : K} {i : ℕ}
    (h : (ofIndices keys).get? k = some i) : keys[i]? = some k := by
  rcases get?_foldl_insert keys.zipIdx Table.empty k i h with hnone | hmem
  · cases hnone
  · exact List.mem_zipIdx_iff_getElem?.mp hmem

/-- **Whatever is in the list has a place.** -/
theorem exists_get?_ofIndices {keys : List K} {k : K} (hk : k ∈ keys) :
    ∃ i, (ofIndices keys).get? k = some i ∧ keys[i]? = some k := by
  obtain ⟨j, hj⟩ := List.getElem?_of_mem hk
  have hsome : ((ofIndices keys).get? k).isSome = true :=
    isSome_get?_foldl_insert keys.zipIdx Table.empty k
      (Or.inr ⟨j, List.mem_zipIdx_iff_getElem?.mpr hj⟩)
  obtain ⟨i, hi⟩ := Option.isSome_iff_exists.mp hsome
  exact ⟨i, hi, getElem?_of_get?_ofIndices hi⟩

end Table
