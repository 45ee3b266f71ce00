import Mathlib.Order.Basic
import Mathlib.Logic.Function.Basic

/-!
# Machines and their runs

A machine is a partial step function `step : S → A → Option S`: an action is
either not enabled in a state, or leads to exactly one state.  What the
environment chooses (an address an allocator hands out, which thread moves next)
is part of the action, so one machine describes every schedule.

## Main definitions

* `Machine.run step s as` — the state after the actions `as`, if all are enabled.
* `Machine.Reach step C s₀ s` — `s` is reached from `s₀` by steps that all meet `C`.
* `Machine.Reachable step s₀ s` — the same with no condition on the steps.
* `Machine.Always step P s as` — `P` holds all along the run `as` from `s`.
* `Machine.Throughout step C s as` — every step of the run meets `C`.

## Main results

* `Machine.Reach.invariant` — what holds initially and is kept by every allowed
  step holds in every state reached.
* `Machine.Reach.simulated` — what is reached is matched by what another machine reaches, if every
  step is.
* `Machine.reachable_of_run` — what a run of a list of actions ends in can be reached.
* `Machine.always_iff_throughout` — if a step keeps `P` exactly when it meets `C`,
  then `P` holds all along a run exactly when all of its steps meet `C`.
* `Machine.throughout_of_invariant` — an invariant under which steps meet `C`.
* `Machine.throughout_congr` — conditions that agree on steps agree on runs.
-/

namespace Machine

variable {S A : Type*} {step : S → A → Option S}

/-- Perform the actions one after another; `none` as soon as one is not enabled. -/
def run (step : S → A → Option S) : S → List A → Option S
  | s, [] => some s
  | s, a :: as => (step s a).bind fun s' => run step s' as

@[simp] theorem run_nil (s : S) : run step s [] = some s := rfl

@[simp] theorem run_cons (s : S) (a : A) (as : List A) :
    run step s (a :: as) = (step s a).bind fun s' => run step s' as := rfl

theorem run_append (s : S) (as bs : List A) :
    run step s (as ++ bs) = (run step s as).bind fun s' => run step s' bs := by
  induction as generalizing s with
  | nil => rfl
  | cons a as ih =>
    rw [List.cons_append, run_cons, run_cons, Option.bind_assoc]
    exact congrArg (Option.bind (step s a)) (funext ih)

/-- The states reached from `s₀` by steps every one of which meets `C`. -/
inductive Reach (step : S → A → Option S) (C : S → A → Prop) (s₀ : S) : S → Prop
  /-- The start. -/
  | refl : Reach step C s₀ s₀
  /-- One more step. -/
  | tail {s s' : S} {a : A} : Reach step C s₀ s → C s a → step s a = some s' →
      Reach step C s₀ s'

/-- The states reached from `s₀` by any steps. -/
abbrev Reachable (step : S → A → Option S) (s₀ : S) : S → Prop :=
  Reach step (fun _ _ => True) s₀

namespace Reach

variable {C D : S → A → Prop} {s₀ s s' s'' : S}

/-- **The invariant rule.**  A predicate that holds at the start and is kept by
every allowed step holds wherever those steps lead. -/
theorem invariant {I : S → Prop} (h : Reach step C s₀ s) (h₀ : I s₀)
    (hstep : ∀ s a s', I s → C s a → step s a = some s' → I s') : I s := by
  induction h with
  | refl => exact h₀
  | tail _ hC hst ih => exact hstep _ _ _ ih hC hst

theorem trans (h : Reach step C s₀ s) (h' : Reach step C s s') : Reach step C s₀ s' := by
  induction h' with
  | refl => exact h
  | tail _ hC hst ih => exact tail ih hC hst

/-- **The simulation rule.**  Where each allowed step is matched by steps of another machine, or by
none, whatever is reached is matched. -/
theorem simulated {T B : Type*} {step' : T → B → Option T} {t₀ : T} {R : S → T → Prop}
    (h : Reach step C s₀ s) (h₀ : R s₀ t₀)
    (hstep : ∀ s a s' t, Reachable step' t₀ t → R s t → C s a → step s a = some s' →
      ∃ t', Reachable step' t t' ∧ R s' t') :
    ∃ t, Reachable step' t₀ t ∧ R s t := by
  induction h with
  | refl => exact ⟨t₀, refl, h₀⟩
  | tail _ hC hst ih =>
    obtain ⟨t, ht, hR⟩ := ih
    obtain ⟨t', ht', hR'⟩ := hstep _ _ _ t ht hR hC hst
    exact ⟨t', ht.trans ht', hR'⟩

/-- A run all of whose actions are allowed wherever they are taken. -/
theorem of_run {as : List A} (hC : ∀ s, ∀ a ∈ as, C s a) (h : run step s as = some s') :
    Reach step C s s' := by
  induction as generalizing s with
  | nil =>
    rw [run_nil, Option.some.injEq] at h
    exact h ▸ refl
  | cons a as ih =>
    rw [run_cons] at h
    obtain ⟨t, ht, hrun⟩ := Option.bind_eq_some_iff.mp h
    have hhead : Reach step C s t := tail refl (hC s a List.mem_cons_self) ht
    exact hhead.trans (ih (fun s b hb => hC s b (List.mem_cons_of_mem a hb)) hrun)

end Reach

/-- Every state a run ends in is reachable. -/
theorem reachable_of_run {s s' : S} {as : List A} (h : run step s as = some s') :
    Reachable step s s' :=
  Reach.of_run (fun _ _ _ => trivial) h

/-- `P` holds in every state of the run. -/
def Always (step : S → A → Option S) (P : S → Prop) : S → List A → Prop
  | s, [] => P s
  | s, a :: as => P s ∧ ∀ s', step s a = some s' → Always step P s' as

/-- Every step of the run meets `C` in the state it is taken in. -/
def Throughout (step : S → A → Option S) (C : S → A → Prop) : S → List A → Prop
  | _, [] => True
  | s, a :: as => ∀ s', step s a = some s' → C s a ∧ Throughout step C s' as

theorem throughout_cons {C : S → A → Prop} {s s' : S} {a : A} {as : List A}
    (h : step s a = some s') :
    Throughout step C s (a :: as) ↔ C s a ∧ Throughout step C s' as := by
  constructor
  · exact fun hall => hall s' h
  · intro hall t ht
    rw [h, Option.some.injEq] at ht
    exact ht ▸ hall

/-- Whether every step of a run meets `C` can be computed by making the run. -/
instance decidableThroughout {C : S → A → Prop} [∀ s a, Decidable (C s a)] :
    ∀ (as : List A) (s : S), Decidable (Throughout step C s as)
  | [], _ => inferInstanceAs (Decidable True)
  | a :: as, s =>
    match h : step s a with
    | none => isTrue fun s' hs' => by rw [h] at hs'; cases hs'
    | some t =>
      haveI : Decidable (Throughout step C t as) := decidableThroughout as t
      decidable_of_iff (C s a ∧ Throughout step C t as)
        ⟨fun hall s' hs' => by rw [h, Option.some.injEq] at hs'; exact hs' ▸ hall,
          fun hall => hall t h⟩

/-- A run all of whose steps meet `C` leads to a state reached by such steps. -/
theorem Reach.of_throughout {C : S → A → Prop} {s s' : S} {as : List A}
    (hC : Throughout step C s as) (h : run step s as = some s') : Reach step C s s' := by
  induction as generalizing s with
  | nil =>
    rw [run_nil, Option.some.injEq] at h
    exact h ▸ refl
  | cons a as ih =>
    rw [run_cons] at h
    obtain ⟨t, ht, hrun⟩ := Option.bind_eq_some_iff.mp h
    obtain ⟨ha, hrest⟩ := hC t ht
    exact (tail refl ha ht).trans (ih hrest hrun)

/-- The last step of a run all of whose steps meet `C`. -/
theorem Throughout.last {C : S → A → Prop} (as : List A) {a : A} :
    ∀ {s s' : S}, Throughout step C s (as ++ [a]) → run step s (as ++ [a]) = some s' →
      ∃ t, C t a ∧ step t a = some s' := by
  induction as with
  | nil =>
    intro s s' hC h
    rw [List.nil_append, run_cons] at h
    obtain ⟨t, ht, hrun⟩ := Option.bind_eq_some_iff.mp h
    rw [run_nil] at hrun
    cases hrun
    exact ⟨s, (hC s' ht).1, ht⟩
  | cons b as ih =>
    intro s s' hC h
    rw [List.cons_append, run_cons] at h
    obtain ⟨t, ht, hrun⟩ := Option.bind_eq_some_iff.mp h
    exact ih (hC t ht).2 hrun

theorem Always.head {P : S → Prop} {s : S} {as : List A} (h : Always step P s as) : P s := by
  cases as with
  | nil => exact h
  | cons a as => exact h.1

/-- Steps of these actions that keep an invariant and then meet `C` meet it throughout a run. -/
theorem throughout_of_invariant {I : S → Prop} {C : S → A → Prop} {as : List A}
    (hstep : ∀ s, ∀ a ∈ as, ∀ s', I s → step s a = some s' → C s a ∧ I s') :
    ∀ s, I s → Throughout step C s as := by
  induction as with
  | nil => exact fun s _ => trivial
  | cons a as ih =>
    intro s hI s' hs'
    obtain ⟨hC, hI'⟩ := hstep s a List.mem_cons_self s' hI hs'
    exact ⟨hC, ih (fun s b hb => hstep s b (List.mem_cons_of_mem a hb)) s' hI'⟩

/-- **The exact-condition rule.**  Under an invariant, if a step keeps `P` exactly
when it meets `C`, then a run keeps `P` exactly when all of its steps meet `C`. -/
theorem always_iff_throughout {I P : S → Prop} {C : S → A → Prop}
    (hinv : ∀ s a s', I s → step s a = some s' → I s')
    (hstep : ∀ s a s', I s → P s → step s a = some s' → (P s' ↔ C s a)) (as : List A) :
    ∀ s, I s → P s → (Always step P s as ↔ Throughout step C s as) := by
  induction as with
  | nil => exact fun s _ hP => ⟨fun _ => trivial, fun _ => hP⟩
  | cons a as ih =>
    intro s hI hP
    constructor
    · rintro ⟨-, hrest⟩ s' hs'
      have hP' : P s' := (hrest s' hs').head
      exact ⟨(hstep s a s' hI hP hs').mp hP',
        (ih s' (hinv s a s' hI hs') hP').mp (hrest s' hs')⟩
    · intro hall
      refine ⟨hP, fun s' hs' => ?_⟩
      obtain ⟨hC, hrest⟩ := hall s' hs'
      have hP' : P s' := (hstep s a s' hI hP hs').mpr hC
      exact (ih s' (hinv s a s' hI hs') hP').mpr hrest

/-- Under an invariant, two conditions that agree on enabled steps hold throughout the same
runs. -/
theorem throughout_congr {I : S → Prop} {C D : S → A → Prop}
    (hinv : ∀ s a s', I s → step s a = some s' → I s')
    (hstep : ∀ s a s', I s → step s a = some s' → (C s a ↔ D s a)) (as : List A) :
    ∀ s, I s → (Throughout step C s as ↔ Throughout step D s as) := by
  induction as with
  | nil => exact fun s _ => Iff.rfl
  | cons a as ih =>
    intro s hI
    constructor
    · intro hall s' hs'
      obtain ⟨hC, hrest⟩ := hall s' hs'
      exact ⟨(hstep s a s' hI hs').mp hC, (ih s' (hinv s a s' hI hs')).mp hrest⟩
    · intro hall s' hs'
      obtain ⟨hD, hrest⟩ := hall s' hs'
      exact ⟨(hstep s a s' hI hs').mpr hD, (ih s' (hinv s a s' hI hs')).mpr hrest⟩

end Machine
