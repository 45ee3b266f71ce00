import Mathlib.Data.List.Basic

/-!
# One thread and its locks

The locks a thread asks for and gives back, as a trace.  A thread that asks for a
lock in a mode conflicting with one it already holds waits for itself, and never
goes on.

## Main definitions

* `Locks.Act` — a request or a release of a lock in a mode.
* `Locks.Clean held tr` — no request of `tr` conflicts with what is held then.
* `Locks.Balanced tr` — whatever `tr` takes it gives back.
* `Locks.critical l m tr` — `tr` under the lock `l`.

## Main results

* `Locks.clean_append`, `Locks.clean_critical` — when a trace made of parts is clean.
-/

namespace Locks

/-- How a lock is asked for.  A mutex is only ever exclusive. -/
inductive Mode where
  | shared
  | exclusive
deriving DecidableEq, Repr

/-- One thing a thread does to a lock. -/
inductive Act (L : Type*) where
  | acquire (l : L) (m : Mode)
  | release (l : L) (m : Mode)
deriving DecidableEq, Repr

variable {L : Type*} [DecidableEq L]

/-- Two holds of one lock conflict unless both are shared. -/
def conflicts (held : List (L × Mode)) (l : L) (m : Mode) : Bool :=
  held.any fun h => decide (h.1 = l) && !(decide (h.2 = .shared) && decide (m = .shared))

/-- What is held after a trace. -/
def after : List (L × Mode) → List (Act L) → List (L × Mode)
  | held, [] => held
  | held, .acquire l m :: tr => after ((l, m) :: held) tr
  | held, .release l m :: tr => after (held.erase (l, m)) tr

/-- No request of the trace conflicts with a lock held at that point. -/
def Clean : List (L × Mode) → List (Act L) → Prop
  | _, [] => True
  | held, .acquire l m :: tr => conflicts held l m = false ∧ Clean ((l, m) :: held) tr
  | held, .release l m :: tr => Clean (held.erase (l, m)) tr

instance decidableClean : ∀ (held : List (L × Mode)) (tr : List (Act L)),
    Decidable (Clean held tr)
  | _, [] => inferInstanceAs (Decidable True)
  | held, .acquire l m :: tr =>
    haveI := decidableClean ((l, m) :: held) tr
    inferInstanceAs (Decidable (_ ∧ _))
  | held, .release l m :: tr => decidableClean (held.erase (l, m)) tr

/-- What the trace takes it gives back, and no more. -/
def Balanced (tr : List (Act L)) : Prop := ∀ held, after held tr = held

/-- A section under one lock. -/
def critical (l : L) (m : Mode) (tr : List (Act L)) : List (Act L) :=
  .acquire l m :: (tr ++ [.release l m])

theorem after_append (held : List (L × Mode)) (a b : List (Act L)) :
    after held (a ++ b) = after (after held a) b := by
  induction a generalizing held with
  | nil => rfl
  | cons x a ih =>
    cases x with
    | acquire l m => exact ih _
    | release l m => exact ih _

theorem clean_append (held : List (L × Mode)) (a b : List (Act L)) :
    Clean held (a ++ b) ↔ Clean held a ∧ Clean (after held a) b := by
  induction a generalizing held with
  | nil => exact ⟨fun h => ⟨trivial, h⟩, fun h => h.2⟩
  | cons x a ih =>
    cases x with
    | acquire l m =>
      show conflicts held l m = false ∧ Clean _ (a ++ b) ↔ _
      rw [ih, ← and_assoc]
      rfl
    | release l m => exact ih _

theorem balanced_nil : Balanced ([] : List (Act L)) := by
  intro held
  rfl

theorem Balanced.append {a b : List (Act L)} (ha : Balanced a) (hb : Balanced b) :
    Balanced (a ++ b) := by
  intro held
  rw [after_append, ha held, hb held]

theorem Balanced.critical {tr : List (Act L)} (h : Balanced tr) (l : L) (m : Mode) :
    Balanced (critical l m tr) := by
  intro held
  show after ((l, m) :: held) (tr ++ [.release l m]) = held
  rw [after_append, h]
  show ((l, m) :: held).erase (l, m) = held
  rw [List.erase_cons_head]

/-- **A section is clean** when its lock is free to take and its body is clean with
the lock held. -/
theorem clean_critical {tr : List (Act L)} (held : List (L × Mode)) (l : L) (m : Mode) :
    Clean held (critical l m tr) ↔ conflicts held l m = false ∧ Clean ((l, m) :: held) tr := by
  show conflicts held l m = false ∧ Clean _ (tr ++ [.release l m]) ↔ _
  rw [clean_append]
  simp [Clean]

/-- After a balanced part the rest starts from the same locks. -/
theorem clean_append_of_balanced {a : List (Act L)} (ha : Balanced a) (held : List (L × Mode))
    (b : List (Act L)) : Clean held (a ++ b) ↔ Clean held a ∧ Clean held b := by
  rw [clean_append, ha]

end Locks
