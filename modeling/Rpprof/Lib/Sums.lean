import Mathlib.Algebra.BigOperators.Fin
import Mathlib.Algebra.BigOperators.Group.Finset.Piecewise
import Mathlib.Algebra.Order.BigOperators.Group.List
import Mathlib.Tactic.Abel

/-!
# Sums moved by one change

A table, a bucket or a pool of threads changes one element at a time.  Each lemma
here says how the sum of a measure over the elements moves when one of them is
changed, dropped or replaced.  They are stated without subtraction, in any
commutative monoid: what was lost is added on the left.

## Main results

* `List.sum_map_change` — change the one element that a predicate singles out.
* `List.sum_filter_not` — drop the one element that a predicate singles out.
* `List.sum_map_set` — replace the element at a position.
* `List.sum_map_le_of_getElem?` — compare position by position.
* `Finset.sum_apply_update` — change one value of a function on a finite type.
* `List.sum_eq_of_classSum_eq` — lists with equal sums in every class have equal sums.
* `List.sum_ite_eq_of_classSum_eq` — and equal sums where a test holds.
* `List.sum_of_foldlM_checked`, `List.foldlM_checked_eq` — what a sum with checks comes to.
-/

variable {α ι M : Type*} [AddCommMonoid M]

namespace List

/-- At most one element of the list satisfies `p`. -/
def AtMostOne (p : α → Bool) (l : List α) : Prop := l.Pairwise fun a b => ¬(p a ∧ p b)

theorem AtMostOne.tail_false {p : α → Bool} {a : α} {l : List α} (h : AtMostOne p (a :: l))
    (ha : p a = true) : ∀ b ∈ l, p b = false := by
  intro b hb
  have := (pairwise_cons.mp h).1 b hb
  simpa [ha] using this

theorem AtMostOne.head_false {p : α → Bool} {a x : α} {l : List α} (h : AtMostOne p (a :: l))
    (hx : x ∈ l) (hp : p x = true) : p a = false := by
  have := (pairwise_cons.mp h).1 x hx
  simpa [hp] using this

/-- Changing the one element with property `p` moves a sum by that element alone. -/
theorem sum_map_change {p : α → Bool} {l : List α} (hone : AtMostOne p l) {x : α} (hx : x ∈ l)
    (hp : p x = true) (u : α → α) (f : α → M) :
    (l.map fun a => f (if p a then u a else a)).sum + f x = (l.map f).sum + f (u x) := by
  induction l with
  | nil => cases hx
  | cons a l ih =>
    simp only [map_cons, sum_cons]
    rcases mem_cons.mp hx with rfl | hmem
    · -- the element itself is the head; `p` is false from there on
      have hrest : (l.map fun a => f (if p a then u a else a)) = l.map f := by
        refine map_congr_left fun b hb => ?_
        simp [hone.tail_false hp b hb]
      rw [hrest, if_pos hp]
      abel
    · have ha : p a = false := hone.head_false hmem hp
      rw [if_neg (by simp [ha]), add_assoc, ih (pairwise_cons.mp hone).2 hmem, add_assoc]

/-- Dropping the one element with property `p` takes that element off a sum. -/
theorem sum_filter_not {p : α → Bool} {l : List α} (hone : AtMostOne p l) {x : α} (hx : x ∈ l)
    (hp : p x = true) (f : α → M) :
    ((l.filter fun a => !p a).map f).sum + f x = (l.map f).sum := by
  induction l with
  | nil => cases hx
  | cons a l ih =>
    rcases mem_cons.mp hx with rfl | hmem
    · have hrest : l.filter (fun a => !p a) = l := by
        refine filter_eq_self.mpr fun b hb => ?_
        simp [hone.tail_false hp b hb]
      rw [filter_cons_of_neg (by simp [hp]), hrest, map_cons, sum_cons, add_comm]
    · have ha : p a = false := hone.head_false hmem hp
      rw [filter_cons_of_pos (by simp [ha]), map_cons, map_cons, sum_cons, sum_cons, add_assoc,
        ih (pairwise_cons.mp hone).2 hmem]

/-- Replacing the element at a position moves a sum by the two elements. -/
theorem sum_map_set (f : α → M) : ∀ (l : List α) (i : ℕ) (h : i < l.length) (x : α),
    ((l.set i x).map f).sum + f l[i] = (l.map f).sum + f x
  | a :: l, 0, _, x => by
    simp only [set_cons_zero, map_cons, sum_cons, getElem_cons_zero]
    abel
  | a :: l, i + 1, h, x => by
    simp only [set_cons_succ, map_cons, sum_cons, getElem_cons_succ]
    rw [add_assoc, sum_map_set f l i (by simpa using h) x, add_assoc]

/-- Lists of one length that compare position by position. -/
theorem sum_map_le_of_getElem? {β : Type*} {f : α → ℕ} {g : β → ℕ} :
    ∀ {l : List α} {l' : List β}, l.length = l'.length →
      (∀ (j : ℕ) (a : α) (b : β), l[j]? = some a → l'[j]? = some b → f a ≤ g b) →
      (l.map f).sum ≤ (l'.map g).sum
  | [], [], _, _ => le_rfl
  | a :: l, b :: l', hlength, h => by
    have hrest : (l.map f).sum ≤ (l'.map g).sum :=
      sum_map_le_of_getElem? (Nat.succ.inj hlength) fun j x y hx hy => h (j + 1) x y hx hy
    exact Nat.add_le_add (h 0 a b rfl rfl) hrest

/-! ### Sums by class -/

section Classes

variable {κ : Type*} [BEq κ]

/-- The sum of the weights of the elements whose key is in the class of `k`. -/
def classSum (k : κ) (l : List (κ × M)) : M := (l.map fun p => if p.1 == k then p.2 else 0).sum

/-- A sum is that of one class and that of the rest. -/
theorem sum_eq_classSum_add (k : κ) (l : List (κ × M)) :
    (l.map Prod.snd).sum = classSum k l + ((l.filter fun p => !(p.1 == k)).map Prod.snd).sum := by
  induction l with
  | nil => simp [classSum]
  | cons p l ih =>
    rw [classSum, map_cons, map_cons, sum_cons, sum_cons, ih, classSum]
    by_cases hk : (p.1 == k) = true
    · rw [if_pos hk, filter_cons_of_neg (by simp [hk]), add_assoc]
    · rw [if_neg hk, filter_cons_of_pos (by simp [hk]), map_cons, sum_cons, zero_add]
      abel

/-- Positive values sum to nothing only where there are none. -/
theorem classSum_eq_zero_iff [PartialOrder M] [IsOrderedAddMonoid M] {l : List (κ × M)}
    (hpos : ∀ p ∈ l, 0 < p.2) (k : κ) :
    classSum k l = 0 ↔ ∀ p ∈ l, (p.1 == k) = false := by
  constructor
  · intro hzero p hp
    by_contra hkey
    rw [Bool.not_eq_false] at hkey
    have hle : p.2 ≤ classSum k l := by
      refine single_le_sum (fun x hx => ?_) _ (mem_map.mpr ⟨p, hp, if_pos hkey⟩)
      obtain ⟨q, hq, rfl⟩ := mem_map.mp hx
      split
      · exact (hpos q hq).le
      · exact le_rfl
    exact absurd (hzero ▸ hle) (hpos p hp).not_ge
  · intro hkey
    refine sum_eq_zero fun x hx => ?_
    obtain ⟨p, hp, rfl⟩ := mem_map.mp hx
    rw [hkey p hp]
    rfl

variable [EquivBEq κ]

/-- The rest has the same sum in every other class, and none in this one. -/
theorem classSum_filter_not (k k' : κ) (l : List (κ × M)) :
    classSum k' (l.filter fun p => !(p.1 == k)) = if k == k' then 0 else classSum k' l := by
  induction l with
  | nil => simp [classSum]
  | cons p l ih =>
    by_cases hk : (p.1 == k) = true
    · rw [filter_cons_of_neg (by simp [hk]), ih, classSum, classSum, map_cons, sum_cons,
        BEq.congr_left hk]
      split <;> simp_all
    · rw [filter_cons_of_pos (by simp [hk]), classSum, map_cons, sum_cons, ← classSum, ih,
        classSum, classSum, map_cons, sum_cons]
      by_cases hkk : (k == k') = true
      · -- the element is in neither class
        have hpk : ¬(p.1 == k') = true := by rwa [← BEq.congr_right hkk]
        rw [if_pos hkk, if_pos hkk, if_neg hpk, zero_add]
      · rw [if_neg hkk, if_neg hkk]

omit [EquivBEq κ] in
/-- Leaving out the elements that a test rejects, if the test does not tell the elements of the
class apart. -/
theorem classSum_ite (k : κ) (l : List (κ × M)) (P : κ → Prop) [DecidablePred P] (b : Prop)
    [Decidable b] (h : ∀ p ∈ l, (p.1 == k) = true → (P p.1 ↔ b)) :
    classSum k (l.map fun p => (p.1, if P p.1 then p.2 else 0)) =
      if b then classSum k l else 0 := by
  induction l with
  | nil => simp [classSum]
  | cons p l ih =>
    rw [forall_mem_cons] at h
    have hrest := ih h.2
    rw [classSum] at hrest ⊢
    rw [map_cons, map_cons, sum_cons, hrest, classSum, classSum, map_cons, sum_cons]
    by_cases hk : (p.1 == k) = true
    · rw [if_pos hk, if_pos hk]
      by_cases hb : b
      · rw [if_pos ((h.1 hk).mpr hb), if_pos hb, if_pos hb]
      · rw [if_neg fun hP => hb ((h.1 hk).mp hP), if_neg hb, if_neg hb, zero_add]
    · rw [if_neg hk, if_neg hk, zero_add, zero_add]

/-- **Lists with equal sums in every class have equal sums.** -/
theorem sum_eq_of_classSum_eq (l l' : List (κ × M)) (h : ∀ k, classSum k l = classSum k l') :
    (l.map Prod.snd).sum = (l'.map Prod.snd).sum := by
  induction hn : l.length + l'.length using Nat.strong_induction_on generalizing l l' with
  | _ n ih =>
    -- take one class off both
    have hsplit : ∀ k, (∃ p ∈ l ++ l', (p.1 == k) = true) →
        (l.map Prod.snd).sum = (l'.map Prod.snd).sum := by
      rintro k ⟨p, hp, hk⟩
      rw [sum_eq_classSum_add k l, sum_eq_classSum_add k l', h k]
      refine congrArg _ (ih _ ?_ _ _ (fun k' => ?_) rfl)
      · have hlen : ((l ++ l').filter fun q => !(q.1 == k)).length < (l ++ l').length :=
          length_filter_lt_length_iff_exists.mpr ⟨p, hp, by simpa using hk⟩
        rw [filter_append, length_append, length_append] at hlen
        omega
      · rw [classSum_filter_not, classSum_filter_not, h k']
    cases l with
    | cons p l => exact hsplit p.1 ⟨p, by simp, BEq.refl p.1⟩
    | nil =>
      cases l' with
      | cons p l' => exact hsplit p.1 ⟨p, by simp, BEq.refl p.1⟩
      | nil => rfl

/-- **Lists with equal sums in every class have equal sums where a test holds**, if the test does
not tell the elements of a class apart. -/
theorem sum_ite_eq_of_classSum_eq {l l' : List (κ × M)}
    (h : ∀ k, classSum k l = classSum k l') {P : κ → Prop} [DecidablePred P]
    (hP : ∀ p ∈ l ++ l', ∀ q ∈ l ++ l', (p.1 == q.1) = true → (P p.1 ↔ P q.1)) :
    (l.map fun p => if P p.1 then p.2 else 0).sum =
      (l'.map fun p => if P p.1 then p.2 else 0).sum := by
  have hsums : ∀ k, classSum k (l.map fun p => (p.1, if P p.1 then p.2 else 0)) =
      classSum k (l'.map fun p => (p.1, if P p.1 then p.2 else 0)) := by
    intro k
    -- what the test says of the class, if anything is in it
    obtain ⟨b, hb⟩ : ∃ b : Bool, ∀ p ∈ l ++ l', (p.1 == k) = true → (P p.1 ↔ b = true) := by
      by_cases hany : ∃ q ∈ l ++ l', (q.1 == k) = true
      · obtain ⟨q, hq, hqk⟩ := hany
        refine ⟨decide (P q.1), fun p hp hpk => ?_⟩
        rw [decide_eq_true_iff]
        exact hP p hp q hq (BEq.trans hpk (BEq.symm hqk))
      · exact ⟨true, fun p hp hpk => absurd ⟨p, hp, hpk⟩ hany⟩
    rw [classSum_ite k l P (b = true) fun p hp => hb p (mem_append_left _ hp),
      classSum_ite k l' P (b = true) fun p hp => hb p (mem_append_right _ hp), h k]
  have heq := sum_eq_of_classSum_eq _ _ hsums
  rw [map_map, map_map] at heq
  exact heq

end Classes

/-- A sum that checks what it comes to at every addition, where it has a result. -/
theorem sum_of_foldlM_checked {op : M → M → Option M} {I : M → Prop}
    (hop : ∀ a b c, op a b = some c → c = a + b ∧ I c) {f : α → M} {l : List α} {total s : M}
    (htotal : I total) (h : l.foldlM (fun t x => op t (f x)) total = some s) :
    s = total + (l.map f).sum ∧ I s := by
  induction l generalizing total with
  | nil =>
    cases h
    exact ⟨by rw [map_nil, sum_nil, add_zero], htotal⟩
  | cons x l ih =>
    rw [foldlM_cons, Option.bind_eq_bind, Option.bind_eq_some_iff] at h
    obtain ⟨total', hadd, hrest⟩ := h
    obtain ⟨rfl, hnext⟩ := hop _ _ _ hadd
    rw [map_cons, sum_cons, ← add_assoc]
    exact ih hnext hrest

/-- It has a result if all of it stays within bounds, as no part comes to more. -/
theorem foldlM_checked_eq [PartialOrder M] [IsOrderedAddMonoid M] {op : M → M → Option M}
    {I : M → Prop} (hop : ∀ a b, I (a + b) → op a b = some (a + b))
    (hI : ∀ a b, a ≤ b → 0 ≤ a → I b → I a) {f : α → M} (hf : ∀ x, 0 ≤ f x) {l : List α} {total : M}
    (htotal : 0 ≤ total) (h : I (total + (l.map f).sum)) :
    l.foldlM (fun t x => op t (f x)) total = some (total + (l.map f).sum) := by
  induction l generalizing total with
  | nil => rw [map_nil, sum_nil, add_zero, foldlM_nil, Option.pure_def]
  | cons x l ih =>
    rw [map_cons, sum_cons, ← add_assoc] at h ⊢
    have hrest : 0 ≤ (l.map f).sum :=
      sum_nonneg fun y hy => by
        obtain ⟨z, -, rfl⟩ := mem_map.mp hy
        exact hf z
    have hnonneg : 0 ≤ total + f x := add_nonneg htotal (hf x)
    have hnext : I (total + f x) := hI _ _ (le_add_of_nonneg_right hrest) hnonneg h
    rw [foldlM_cons, hop total (f x) hnext, Option.bind_eq_bind, Option.bind_some]
    exact ih hnonneg h

end List

namespace Finset

/-- Changing a function at one point moves a sum over its values by that point. -/
theorem sum_apply_update [Fintype ι] [DecidableEq ι] {β : Type*} (g : β → M) (b : ι → β) (i : ι)
    (x : β) : ∑ j, g (Function.update b i x j) + g (b i) = ∑ j, g (b j) + g x := by
  have hcomp : ∀ j, g (Function.update b i x j) = Function.update (g ∘ b) i (g x) j :=
    fun j => congrFun (Function.comp_update g b i x) j
  simp only [hcomp]
  rw [sum_update_of_mem (mem_univ i), ← add_sum_erase univ (fun j => g (b j)) (mem_univ i),
    sdiff_singleton_eq_erase]
  simp only [Function.comp_apply]
  abel

end Finset
