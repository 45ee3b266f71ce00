import Rpprof.Heap.Threads

/-!
# Callsite ids under threads

The stack map, the callsite data and the id counter while threads create callsites
and reset the profiler.  An id is bound in three steps under the write lock of the
stack map, and `reset` clears the map, the data and the counter in three steps under
no common lock.  Between the first and the last of those it must not be that an id is
drawn, and while the data are cleared no sample may have its id and not its data.

## Main definitions

* `HeapState.Consistent` — the stack map, the data and the counter fit together.
* `Named` — the same with creations and resets under way.
* `Pool.DrawsWhileClearing` — an id is drawn between the steps of a reset.
* `Pool.ClearsUnder` — the data are cleared under a sample.

## Main results

* `Named.step` — every other step keeps the tables fitting together.
* `Pool.consistent_of_reach` — so they are consistent whenever no reset is under way,
  and what is sampled is counted for its own stack, resets or not.
-/

namespace Rpprof

namespace HeapState

/-- The stack that the data under an id carry. -/
def stackOf (h : HeapState) (id : ℕ) : Option (List ℕ) :=
  (h.callsites.get? id).map CallsiteData.ips

theorem stackOf_updateCallsite (h : HeapState) (id : ℕ) {f : CallsiteData → CallsiteData}
    (hf : ∀ d, (f d).ips = d.ips) (a : ℕ) : (h.updateCallsite id f).stackOf a = h.stackOf a := by
  rw [stackOf, callsites_updateCallsite, stackOf]
  split
  · rw [Option.map_map]
    exact congrArg (fun g => (h.callsites.get? a).map g) (funext hf)
  · rfl

theorem stackOf_insertCallsite (h : HeapState) (id : ℕ) (ips : List ℕ) (a : ℕ) :
    (h.insertCallsite id ips).stackOf a = if id = a then some ips else h.stackOf a := by
  show ((h.callsites.insert id (CallsiteData.fresh ips)).get? a).map CallsiteData.ips = _
  rw [Table.get?_insert]
  simp only [beq_iff_eq]
  split <;> rfl

theorem lookup_bindStack (h : HeapState) (ips : List ℕ) (id : ℕ) (a : List ℕ) :
    (h.bindStack ips id).lookup a = if ips = a then some id else h.lookup a := by
  show (h.callsiteMap.insert ips id).get? a = _
  rw [Table.get?_insert]
  simp only [beq_iff_eq]
  rfl

/-- Nothing about stacks and ids changed. -/
structure SameNames (h h' : HeapState) : Prop where
  lookup : ∀ a, h'.lookup a = h.lookup a
  stackOf : ∀ id, h'.stackOf id = h.stackOf id
  next : h'.nextCallsiteId = h.nextCallsiteId

theorem SameNames.refl (h : HeapState) : SameNames h h := ⟨fun _ => rfl, fun _ => rfl, rfl⟩

theorem sameNames_updateCallsite (h : HeapState) (id : ℕ) {f : CallsiteData → CallsiteData}
    (hf : ∀ d, (f d).ips = d.ips) : SameNames h (h.updateCallsite id f) :=
  ⟨fun _ => rfl, h.stackOf_updateCallsite id hf, rfl⟩

/-- The stack map, the callsite data and the id counter fit together. -/
structure Consistent (h : HeapState) : Prop where
  /-- A bound stack has data under its id, and they carry the stack. -/
  data : ∀ ips id, h.lookup ips = some id → ∃ d, h.callsites.get? id = some d ∧ d.ips = ips
  /-- Distinct stacks have distinct ids. -/
  distinct : ∀ a b id, h.lookup a = some id → h.lookup b = some id → a = b
  /-- Every id bound to a stack is below the counter. -/
  boundBelow : ∀ ips id, h.lookup ips = some id → id < h.nextCallsiteId
  /-- Every id that has data is below the counter. -/
  dataBelow : ∀ id d, h.callsites.get? id = some d → id < h.nextCallsiteId

end HeapState

open HeapState (SameNames Consistent)

namespace Pc

/-- The thread has drawn an id that is not bound yet. -/
def hasDrawn : Pc → Bool
  | sampling (.fill _) _ _ _ | sampling (.bind _) _ _ _ => true
  | _ => false

/-- The thread is about to draw an id. -/
def draws : Pc → Bool
  | sampling .draw _ _ _ => true
  | _ => false

/-- The thread has cleared the stack map and not yet stored the counter. -/
def clears : Pc → Bool
  | resetting .callsites | resetting .nextId => true
  | _ => false

/-- The thread is in `reset`. -/
def isResetting : Pc → Bool
  | resetting _ => true
  | _ => false

/-- The id a thread holds for the stack it samples, once it has looked it up or bound it. -/
def hand : Pc → Option (ℕ × List ℕ)
  | sampling (.find id) _ _ ips | sampling (.allocObjects id) _ _ ips => some (id, ips)
  | sampling (.allocBytes id) _ _ ips | sampling (.inuseObjects id) _ _ ips => some (id, ips)
  | sampling (.inuseBytes id) _ _ ips | sampling (.insert id) _ _ ips => some (id, ips)
  | _ => none

/-- The thread has the id of its sample, and not yet the data. -/
def finds : Pc → Bool
  | sampling (.find _) _ _ _ => true
  | _ => false

/-- The id a thread is to count its sample under, or is counting it under. -/
def countsUnder : Pc → Option (ℕ × List ℕ)
  | sampling (.find id) _ _ ips | sampling (.allocObjects id) _ _ ips => some (id, ips)
  | sampling (.allocBytes id) _ _ ips | sampling (.inuseObjects id) _ _ ips => some (id, ips)
  | sampling (.inuseBytes id) _ _ ips => some (id, ips)
  | _ => none

/-- The step neither creates a callsite nor clears one. -/
def neutral (pc : Pc) : Bool := !pc.holdsMap && !pc.clears

theorem holdsMap_of_hasDrawn {pc : Pc} (h : pc.hasDrawn = true) : pc.holdsMap = true := by
  cases pc with
  | sampling at_ ptr size ips => cases at_ <;> first | rfl | cases h
  | _ => cases h

theorem neutral_afterRemoving (ptr : ℕ) (after : After) :
    (afterRemoving ptr after).neutral = true := by
  cases after <;> rfl

theorem neutral_afterShard (i : Fin numShards) : (afterShard i).neutral = true := by
  unfold afterShard
  split <;> rfl

theorem isResetting_afterShard (i : Fin numShards) : (afterShard i).isResetting = true := by
  unfold afterShard
  split <;> rfl

theorem isResetting_afterRemoving (ptr : ℕ) (after : After) :
    (afterRemoving ptr after).isResetting = false := by
  cases after <;> rfl

theorem hand_afterRemoving (ptr : ℕ) (after : After) : (afterRemoving ptr after).hand = none := by
  cases after <;> rfl

theorem countsUnder_afterRemoving (ptr : ℕ) (after : After) :
    (afterRemoving ptr after).countsUnder = none := by
  cases after <;> rfl

theorem countsUnder_afterShard (i : Fin numShards) : (afterShard i).countsUnder = none := by
  unfold afterShard
  split <;> rfl

/-- Whoever counts and has its data holds the read lock. -/
theorem finds_of_countsUnder {pc : Pc} {v : ℕ × List ℕ} (h : pc.countsUnder = some v)
    (hreads : pc.readsCallsites = false) : pc.finds = true := by
  cases pc with
  | sampling at_ ptr size ips =>
    cases at_ with
    | find id => rfl
    | allocObjects id | allocBytes id | inuseObjects id | inuseBytes id => cases hreads
    | _ => cases h
  | _ => cases h

theorem isResetting_of_clears {pc : Pc} (h : pc.clears = true) : pc.isResetting = true := by
  cases pc with
  | resetting at_ => rfl
  | _ => cases h

theorem ne_of_isResetting {pc : Pc} (h : pc.isResetting = false) (at_ : ResetStep) :
    pc ≠ resetting at_ := by
  rintro rfl
  cases h

end Pc

variable {Thread : Type}

/-- What the tables owe to a thread that creates a callsite or clears them. -/
def Fits (h : HeapState) : Pc → Prop
  | .sampling .draw _ _ ips => h.lookup ips = none
  | .sampling (.fill id) _ _ ips =>
    h.lookup ips = none ∧ h.stackOf id = none ∧ id < h.nextCallsiteId
  | .sampling (.bind id) _ _ ips => h.lookup ips = none ∧ h.stackOf id = some ips
  | .resetting .callsites => ∀ ips, h.lookup ips = none
  | .resetting .nextId => (∀ ips, h.lookup ips = none) ∧ ∀ id, h.stackOf id = none
  | _ => True

namespace Fits

variable {h h' : HeapState} {pc : Pc}

theorem of_quiet (hmap : pc.holdsMap = false) (hclears : pc.clears = false) : Fits h pc := by
  cases pc with
  | sampling at_ ptr size ips => cases at_ <;> trivial
  | resetting at_ => cases at_ <;> trivial
  | _ => trivial

theorem of_neutral (hpc : pc.neutral = true) : Fits h pc := by
  rw [Pc.neutral, Bool.and_eq_true, Bool.not_eq_true', Bool.not_eq_true'] at hpc
  exact of_quiet hpc.1 hpc.2

/-- What was absent is still absent, and a drawn id keeps its data and its bound. -/
theorem frame (hf : Fits h pc) (hl : ∀ a, h.lookup a = none → h'.lookup a = none)
    (hs : ∀ id, h.stackOf id = none → h'.stackOf id = none)
    (hd : pc.hasDrawn = true → (∀ id, h'.stackOf id = h.stackOf id) ∧
      h.nextCallsiteId ≤ h'.nextCallsiteId) : Fits h' pc := by
  cases pc with
  | sampling at_ ptr size ips =>
    cases at_ with
    | draw => exact hl ips hf
    | fill id =>
      obtain ⟨hlook, hstack, hlt⟩ := hf
      exact ⟨hl ips hlook, hs id hstack, lt_of_lt_of_le hlt (hd rfl).2⟩
    | bind id =>
      obtain ⟨hlook, hstack⟩ := hf
      exact ⟨hl ips hlook, by rw [(hd rfl).1, hstack]⟩
    | _ => trivial
  | resetting at_ =>
    cases at_ with
    | callsites => exact fun ips => hl ips (hf ips)
    | nextId => exact ⟨fun ips => hl ips (hf.1 ips), fun id => hs id (hf.2 id)⟩
    | _ => trivial
  | _ => trivial

end Fits

/-- The tables fit together, with the creations and resets that are under way. -/
structure Named (h : HeapState) (pc : Thread → Pc) : Prop where
  data : ∀ ips id, h.lookup ips = some id → h.stackOf id = some ips
  below : ∀ id ips, h.stackOf id = some ips → id < h.nextCallsiteId
  /-- The write lock of the stack map is held once at most. -/
  one : ∀ t u, (pc t).holdsMap = true → (pc u).holdsMap = true → t = u
  /-- No id is drawn while a reset is past the stack map. -/
  apart : ∀ t u, (pc t).hasDrawn = true → (pc u).clears = true → False
  fits : ∀ t, Fits h (pc t)

namespace Named

variable [DecidableEq Thread] {h h' : HeapState} {pc : Thread → Pc} {t : Thread} {pc' : Pc}

omit [DecidableEq Thread] in
theorem new : Named HeapState.new (fun _ : Thread => Pc.idle) := by
  constructor
  · intro ips id hl; cases hl
  · intro id ips hs; cases hs
  · intro t u ht; cases ht
  · intro t u ht; cases ht
  · intro t; trivial

omit [DecidableEq Thread] in
theorem consistent (hn : Named h pc) : h.Consistent where
  data := by
    intro ips id hl
    obtain ⟨d, hd, hips⟩ := Option.map_eq_some_iff.mp (hn.data ips id hl)
    exact ⟨d, hd, hips⟩
  distinct := by
    intro a b id ha hb
    have := hn.data a id ha
    rw [hn.data b id hb, Option.some.injEq] at this
    exact this.symm
  boundBelow := fun ips id hl => hn.below id ips (hn.data ips id hl)
  dataBelow := by
    intro id d hd
    refine hn.below id d.ips ?_
    rw [HeapState.stackOf, hd]
    rfl

/-- The threads' part of the invariant after one thread went on: the lock is still held
once, drawing and clearing are still apart, and the tables fit every thread. -/
theorem of_update (hn : Named h pc) (hdata : ∀ ips id, h'.lookup ips = some id →
    h'.stackOf id = some ips) (hbelow : ∀ id ips, h'.stackOf id = some ips →
    id < h'.nextCallsiteId)
    (hone : pc'.holdsMap = true → (pc t).holdsMap = true ∨ ∀ u, (pc u).holdsMap = false)
    (hdrawn : pc'.hasDrawn = true → ∀ u, (pc u).clears = false)
    (hclears : pc'.clears = true → ∀ u, (pc u).hasDrawn = false)
    (hself : Fits h' pc') (hothers : ∀ u, u ≠ t → Fits h' (pc u)) :
    Named h' (Function.update pc t pc') := by
  refine ⟨hdata, hbelow, ?_, ?_, ?_⟩
  · -- two holders: both others, or one of them the thread that went on
    have hnew : ∀ u, u ≠ t → pc'.holdsMap = true → (pc u).holdsMap = true → False := by
      intro u hut hp hu
      rcases hone hp with ht | hnone
      · exact hut (hn.one u t hu ht)
      · rw [hnone u] at hu; cases hu
    intro a b ha hb
    by_cases hat : a = t <;> by_cases hbt : b = t
    · rw [hat, hbt]
    · rw [hat, Function.update_self] at ha
      rw [Function.update_of_ne hbt] at hb
      exact (hnew b hbt ha hb).elim
    · rw [Function.update_of_ne hat] at ha
      rw [hbt, Function.update_self] at hb
      exact (hnew a hat hb ha).elim
    · rw [Function.update_of_ne hat] at ha
      rw [Function.update_of_ne hbt] at hb
      exact hn.one a b ha hb
  · intro a b ha hb
    by_cases hat : a = t <;> by_cases hbt : b = t
    · rw [hat, Function.update_self] at ha
      rw [hbt, Function.update_self] at hb
      -- one program counter is not at both places
      cases pc' with
      | sampling at_ ptr size ips => cases hb
      | _ => cases ha
    · rw [hat, Function.update_self] at ha
      rw [Function.update_of_ne hbt, hdrawn ha b] at hb
      cases hb
    · rw [Function.update_of_ne hat] at ha
      rw [hbt, Function.update_self] at hb
      rw [hclears hb a] at ha
      cases ha
    · rw [Function.update_of_ne hat] at ha
      rw [Function.update_of_ne hbt] at hb
      exact hn.apart a b ha hb
  · intro u
    by_cases hut : u = t
    · rw [hut, Function.update_self]
      exact hself
    · rw [Function.update_of_ne hut]
      exact hothers u hut

/-- A step that leaves stacks and ids alone, and does not take the thread to where it
creates or clears, keeps the tables fitting together. -/
theorem keep (hn : Named h pc) (hsame : SameNames h h') (hpc : pc'.neutral = true) :
    Named h' (Function.update pc t pc') := by
  have hquiet := hpc
  rw [Pc.neutral, Bool.and_eq_true, Bool.not_eq_true', Bool.not_eq_true'] at hquiet
  obtain ⟨hmap, hclears⟩ := hquiet
  refine hn.of_update ?_ ?_ ?_ ?_ ?_ (Fits.of_neutral hpc) ?_
  · intro ips id hl
    rw [hsame.lookup] at hl
    rw [hsame.stackOf, hn.data ips id hl]
  · intro id ips hs
    rw [hsame.stackOf] at hs
    rw [hsame.next]
    exact hn.below id ips hs
  · intro hp
    rw [hmap] at hp
    cases hp
  · intro hp
    rw [Pc.holdsMap_of_hasDrawn hp] at hmap
    cases hmap
  · intro hp
    rw [hclears] at hp
    cases hp
  · intro u _
    refine (hn.fits u).frame ?_ ?_ ?_
    · intro a ha; rw [hsame.lookup, ha]
    · intro id hid; rw [hsame.stackOf, hid]
    · exact fun _ => ⟨hsame.stackOf, hsame.next.ge⟩

section Steps

variable (hn : Named h pc) {ptr size id : ℕ} {ips : List ℕ}
include hn

/-- The entry is vacant and the write lock taken. -/
theorem entryVacant (hfree : ∀ u, (pc u).holdsMap = false) (hl : h.lookup ips = none) :
    Named h (Function.update pc t (.sampling .draw ptr size ips)) := by
  refine hn.of_update hn.data hn.below (fun _ => Or.inr hfree) nofun nofun hl ?_
  exact fun u _ => hn.fits u

/-- **An id is drawn while no reset is past the stack map.** -/
theorem draw (ht : pc t = .sampling .draw ptr size ips) (hno : ∀ u, (pc u).clears = false) :
    Named h.drawId.2 (Function.update pc t (.sampling (.fill h.nextCallsiteId) ptr size ips)) := by
  have hl : h.lookup ips = none := by
    have := hn.fits t
    rwa [ht] at this
  -- the counter is above every id that has data
  have hfresh : h.stackOf h.nextCallsiteId = none := by
    cases hs : h.stackOf h.nextCallsiteId with
    | none => rfl
    | some a => exact absurd (hn.below _ a hs) (lt_irrefl _)
  refine hn.of_update hn.data ?_ (fun _ => Or.inl (by rw [ht]; rfl)) (fun _ => hno) nofun
    ⟨hl, hfresh, Nat.lt_succ_self _⟩ ?_
  · intro a b hs
    exact Nat.lt_succ_of_lt (hn.below a b hs)
  · intro u _
    exact (hn.fits u).frame (fun _ ha => ha) (fun _ hs => hs) fun _ => ⟨fun _ => rfl, Nat.le_succ _⟩

omit [DecidableEq Thread] in
/-- Nobody else creates or clears while a thread holds a drawn id. -/
theorem alone (ht : (pc t).hasDrawn = true) (h' : HeapState) (u : Thread) (hut : u ≠ t) :
    Fits h' (pc u) := by
  apply Fits.of_quiet
  · cases hu : (pc u).holdsMap with
    | false => rfl
    | true => exact absurd (hn.one u t hu (Pc.holdsMap_of_hasDrawn ht)) hut
  · cases hu : (pc u).clears with
    | false => rfl
    | true => exact (hn.apart t u ht hu).elim

/-- The data of a drawn id are inserted. -/
theorem fill (ht : pc t = .sampling (.fill id) ptr size ips) :
    Named (h.insertCallsite id ips) (Function.update pc t (.sampling (.bind id) ptr size ips)) := by
  have hfit := hn.fits t
  rw [ht] at hfit
  obtain ⟨hl, hstack, hlt⟩ := hfit
  have hdrawn : (pc t).hasDrawn = true := by rw [ht]; rfl
  refine hn.of_update ?_ ?_ (fun _ => Or.inl (by rw [ht]; rfl)) ?_ nofun ?_ (hn.alone hdrawn _)
  · intro a b hab
    rw [HeapState.stackOf_insertCallsite]
    split
    · next heq =>
      -- the id is fresh, so no stack is bound to it
      have := hn.data a b hab
      rw [← heq, hstack] at this
      cases this
    · exact hn.data a b hab
  · intro a b hs
    rw [HeapState.stackOf_insertCallsite] at hs
    split at hs
    · next heq => rw [← heq]; exact hlt
    · exact hn.below a b hs
  · intro _ u
    cases hu : (pc u).clears with
    | false => rfl
    | true => exact (hn.apart t u hdrawn hu).elim
  · exact ⟨hl, by rw [HeapState.stackOf_insertCallsite, if_pos rfl]⟩

/-- A filled id is bound to its stack, and the write lock released. -/
theorem bind (ht : pc t = .sampling (.bind id) ptr size ips) :
    Named (h.bindStack ips id) (Function.update pc t (.sampling (.find id) ptr size ips)) := by
  have hfit := hn.fits t
  rw [ht] at hfit
  obtain ⟨hl, hstack⟩ := hfit
  have hdrawn : (pc t).hasDrawn = true := by rw [ht]; rfl
  refine hn.of_update ?_ hn.below nofun nofun nofun trivial (hn.alone hdrawn _)
  intro a b hab
  rw [HeapState.lookup_bindStack] at hab
  split at hab
  · next heq =>
    rw [Option.some.injEq] at hab
    rw [← hab, ← heq]
    exact hstack
  · exact hn.data a b hab

/-- The stack map is cleared while nobody creates. -/
theorem clearMap (hfree : ∀ u, (pc u).holdsMap = false) :
    Named h.clearMap (Function.update pc t (.resetting .callsites)) := by
  -- whoever has drawn an id holds the write lock, and nobody does
  have hnone : ∀ u, (pc u).hasDrawn = false := by
    intro u
    cases hu : (pc u).hasDrawn with
    | false => rfl
    | true => rw [← hfree u, Pc.holdsMap_of_hasDrawn hu]
  refine hn.of_update nofun hn.below nofun nofun (fun _ => hnone) (fun _ => rfl) ?_
  intro u _
  exact (hn.fits u).frame (fun _ _ => rfl) (fun _ hs => hs) fun _ => ⟨fun _ => rfl, le_rfl⟩

/-- The data are cleared. -/
theorem clearCallsites (ht : pc t = .resetting .callsites) :
    Named h.clearCallsites (Function.update pc t (.resetting .nextId)) := by
  have hl : ∀ ips, h.lookup ips = none := by
    have := hn.fits t
    rwa [ht] at this
  have hnone : ∀ u, (pc u).hasDrawn = false := by
    intro u
    cases hu : (pc u).hasDrawn with
    | false => rfl
    | true => exact (hn.apart u t hu (by rw [ht]; rfl)).elim
  refine hn.of_update ?_ nofun nofun nofun (fun _ => hnone) ⟨hl, fun _ => rfl⟩ ?_
  · intro a b hab
    have : h.lookup a = some b := hab
    rw [hl a] at this
    cases this
  · intro u _
    refine (hn.fits u).frame (fun _ ha => ha) (fun _ _ => rfl) fun hu => ?_
    rw [hnone u] at hu
    cases hu

/-- The counter is stored when there are no ids left. -/
theorem storeNextId (ht : pc t = .resetting .nextId) :
    Named h.storeNextId (Function.update pc t .idle) := by
  obtain ⟨hl, hstack⟩ : (∀ ips, h.lookup ips = none) ∧ ∀ id, h.stackOf id = none := by
    have := hn.fits t
    rwa [ht] at this
  refine hn.of_update hn.data ?_ nofun nofun nofun trivial ?_
  · intro a b hab
    have : h.stackOf a = some b := hab
    rw [hstack a] at this
    cases this
  · intro u _
    refine (hn.fits u).frame (fun _ ha => ha) (fun _ hs => hs) fun hu => ?_
    exact (hn.apart u t hu (by rw [ht]; rfl)).elim

end Steps

/-- **Every step inside the profiler keeps the tables fitting together**, but for an id
drawn between the steps of a reset. -/
theorem advance (hn : Named h pc) {mapFree callsitesFree : Bool}
    (hmap : mapFree = true → ∀ u, (pc u).holdsMap = false)
    (hdraw : ∀ ptr size ips, pc t = .sampling .draw ptr size ips → ∀ u, (pc u).clears = false)
    (hnext : (pc t).Next h mapFree callsitesFree h' pc') :
    Named h' (Function.update pc t pc') := by
  have hsame := SameNames.refl h
  generalize hp : pc t = p at hnext
  cases hnext with
  | lookupHit _ _ => exact hn.keep hsame rfl
  | lookupMiss _ _ => exact hn.keep hsame rfl
  | entryOccupied _ _ => exact hn.keep hsame rfl
  | entryVacant hfree hl => exact hn.entryVacant (hmap hfree) hl
  | draw => exact hn.draw hp (hdraw _ _ _ hp)
  | fill _ => exact hn.fill hp
  | bind => exact hn.bind hp
  | findSome _ => exact hn.keep hsame rfl
  | findNone _ => exact hn.keep hsame rfl
  | allocObjects => exact hn.keep (h.sameNames_updateCallsite _ fun _ => rfl) rfl
  | allocBytes => exact hn.keep (h.sameNames_updateCallsite _ fun _ => rfl) rfl
  | inuseObjects => exact hn.keep (h.sameNames_updateCallsite _ fun _ => rfl) rfl
  | inuseBytes => exact hn.keep (h.sameNames_updateCallsite _ fun _ => rfl) rfl
  | insert => exact hn.keep ⟨fun _ => rfl, fun _ => rfl, rfl⟩ rfl
  | removeSome _ => exact hn.keep ⟨fun _ => rfl, fun _ => rfl, rfl⟩ rfl
  | removeNone _ => exact hn.keep hsame (Pc.neutral_afterRemoving _ _)
  | settleSome _ => exact hn.keep hsame rfl
  | settleNone _ => exact hn.keep hsame (Pc.neutral_afterRemoving _ _)
  | subObjects => exact hn.keep (h.sameNames_updateCallsite _ fun _ => rfl) rfl
  | subBytes =>
    exact hn.keep (h.sameNames_updateCallsite _ fun _ => rfl) (Pc.neutral_afterRemoving _ _)
  | release => exact hn.keep hsame rfl
  | clearShard => exact hn.keep ⟨fun _ => rfl, fun _ => rfl, rfl⟩ (Pc.neutral_afterShard _)
  | clearMap hfree => exact hn.clearMap (hmap hfree)
  | clearCallsites _ => exact hn.clearCallsites hp
  | storeNextId => exact hn.storeNextId hp

end Named

namespace Pool

variable [DecidableEq Thread] [Fintype Thread] {s s' : Pool Thread} {m : Move Thread}

omit [DecidableEq Thread] in
theorem of_mapFree (h : s.mapFree = true) (u : Thread) : (s.pc u).holdsMap = false :=
  decide_eq_true_eq.mp h u

/-- The step draws an id while a reset has cleared the stack map and not yet stored the
counter. -/
def DrawsWhileClearing (s : Pool Thread) : Move Thread → Prop
  | .advance t => (s.pc t).draws = true ∧ ∃ u, (s.pc u).clears = true
  | _ => False

instance decidableDrawsWhileClearing (s : Pool Thread) : ∀ m, Decidable (s.DrawsWhileClearing m)
  | .advance t => inferInstanceAs (Decidable ((s.pc t).draws = true ∧ ∃ u, (s.pc u).clears = true))
  | .alloc _ _ _ _ | .dealloc _ _ | .realloc _ _ _ _ _ | .reset _ =>
    inferInstanceAs (Decidable False)

/-- The step clears the callsite data while the thread has the id of its sample and has not
looked up the data. -/
def ClearsUnder (s : Pool Thread) (t : Thread) : Move Thread → Prop
  | .advance u => s.pc u = .resetting .callsites ∧ (s.pc t).finds = true
  | _ => False

instance decidableClearsUnder (s : Pool Thread) (t : Thread) :
    ∀ m, Decidable (s.ClearsUnder t m)
  | .advance u => inferInstanceAs (Decidable (s.pc u = .resetting .callsites ∧
      (s.pc t).finds = true))
  | .alloc _ _ _ _ | .dealloc _ _ | .realloc _ _ _ _ _ | .reset _ =>
    inferInstanceAs (Decidable False)

/-- **One step of the pool keeps the tables fitting together**, unless it draws an id
between the steps of a reset. -/
theorem named_step (hn : Named s.heap s.pc) (hm : ¬s.DrawsWhileClearing m)
    (h : s.step m = some s') : Named s'.heap s'.pc := by
  have hsame := SameNames.refl s.heap
  cases step_spec h with
  | null => exact hn
  | beginSampled _ _ => exact hn.keep hsame rfl
  | allocUnsampled _ _ => exact hn
  | beginDealloc _ _ _ => exact hn.keep hsame rfl
  | beginRealloc _ _ _ _ => exact hn.keep hsame rfl
  | beginReset _ => exact hn.keep hsame rfl
  | @advance t _ _ hnext =>
    refine hn.advance of_mapFree ?_ hnext
    intro ptr size ips ht u
    cases hu : (s.pc u).clears with
    | false => rfl
    | true => exact absurd ⟨by rw [ht]; rfl, u, hu⟩ hm

/-! ### After the resets -/

/-- No thread is in `reset`. -/
def NoReset (s : Pool Thread) : Prop := ∀ t, (s.pc t).isResetting = false

/-- The id a thread holds for its stack is the one the stack is bound to. -/
def HoldsOwn (s : Pool Thread) (t : Thread) : Prop :=
  ∀ id ips, (s.pc t).hand = some (id, ips) → s.heap.lookup ips = some id

/-- The id a thread holds for its stack has data, and they carry that stack: whatever
the thread counts, it counts for the stack it samples. -/
def CountsOwn (s : Pool Thread) (t : Thread) : Prop :=
  ∀ id ips, (s.pc t).hand = some (id, ips) →
    ∃ d, s.heap.callsites.get? id = some d ∧ d.ips = ips

/-- The sample of a thread, from the moment it has an id until it is counted, has data under that
id, and they carry its stack. -/
def Counts (s : Pool Thread) (t : Thread) : Prop :=
  ∀ id ips, (s.pc t).countsUnder = some (id, ips) →
    ∃ d, s.heap.callsites.get? id = some d ∧ d.ips = ips

end Pool

/-- The move begins a reset. -/
def Move.isReset : Move Thread → Bool
  | .reset _ => true
  | _ => false

namespace Pc

variable {h h' : HeapState} {mapFree callsitesFree : Bool} {pc pc' : Pc}

/-- A thread that is not in `reset` does not get there by going on. -/
theorem Next.isResetting (hnext : Next h mapFree callsitesFree pc h' pc')
    (hpc : pc.isResetting = false) : pc'.isResetting = false := by
  cases hnext with
  | removeNone _ => exact isResetting_afterRemoving _ _
  | settleNone _ => exact isResetting_afterRemoving _ _
  | subBytes => exact isResetting_afterRemoving _ _
  | clearShard => cases hpc
  | clearMap _ => cases hpc
  | clearCallsites _ => cases hpc
  | storeNextId => rfl
  | _ => rfl

/-- Outside `reset` a bound stack keeps its id. -/
theorem Next.lookup (hnext : Next h mapFree callsitesFree pc h' pc')
    (hpc : pc.isResetting = false) (hfit : Fits h pc) {a : List ℕ} {id : ℕ}
    (hl : h.lookup a = some id) : h'.lookup a = some id := by
  cases hnext with
  | @bind ptr size ips id' =>
    obtain ⟨hnone, -⟩ := hfit
    rw [HeapState.lookup_bindStack]
    split
    · next heq =>
      -- the stack that is bound was not bound
      rw [heq, hl] at hnone
      cases hnone
    · exact hl
  | clearMap _ => cases hpc
  | _ => exact hl

/-- An id a thread holds after a step is the one it held, or is bound to its stack. -/
theorem Next.hand (hnext : Next h mapFree callsitesFree pc h' pc') {id : ℕ} {ips : List ℕ}
    (hh : pc'.hand = some (id, ips)) : pc.hand = some (id, ips) ∨ h'.lookup ips = some id := by
  cases hnext with
  | lookupHit _ hl => cases hh; exact Or.inr hl
  | entryOccupied _ hl => cases hh; exact Or.inr hl
  | bind => cases hh; exact Or.inr (by rw [HeapState.lookup_bindStack, if_pos rfl])
  | findSome _ => exact Or.inl hh
  | findNone _ => exact Or.inl hh
  | allocObjects => exact Or.inl hh
  | allocBytes => exact Or.inl hh
  | inuseObjects => exact Or.inl hh
  | inuseBytes => exact Or.inl hh
  | removeNone _ => rw [hand_afterRemoving] at hh; cases hh
  | settleNone _ => rw [hand_afterRemoving] at hh; cases hh
  | subBytes => rw [hand_afterRemoving] at hh; cases hh
  | @clearShard i =>
    have := isResetting_afterShard i
    generalize afterShard i = p at this hh
    cases p with
    | resetting at_ => cases hh
    | _ => cases this
  | _ => cases hh

/-- Only `reset` takes the data under an id away, and they stay of the same stack. -/
theorem Next.stackOf (hnext : Next h mapFree callsitesFree pc h' pc')
    (hpc : pc ≠ .resetting .callsites) (hfit : Fits h pc) {id : ℕ} {ips : List ℕ}
    (hs : h.stackOf id = some ips) : h'.stackOf id = some ips := by
  have hsame : ∀ i f, (∀ d : CallsiteData, (f d).ips = d.ips) →
      (h.updateCallsite i f).stackOf id = some ips := by
    intro i f hf
    rw [h.stackOf_updateCallsite i hf, hs]
  cases hnext with
  | @fill ptr size a i _ =>
    obtain ⟨-, hnone, -⟩ := hfit
    rw [HeapState.stackOf_insertCallsite]
    split
    · next heq =>
      rw [heq, hs] at hnone
      cases hnone
    · exact hs
  | allocObjects => exact hsame _ _ fun _ => rfl
  | allocBytes => exact hsame _ _ fun _ => rfl
  | inuseObjects => exact hsame _ _ fun _ => rfl
  | inuseBytes => exact hsame _ _ fun _ => rfl
  | subObjects => exact hsame _ _ fun _ => rfl
  | subBytes => exact hsame _ _ fun _ => rfl
  | clearCallsites _ => exact absurd rfl hpc
  | _ => exact hs

/-- An id a thread counts under after a step is the one it counted under, or has data of its
stack. -/
theorem Next.countsUnder (hnext : Next h mapFree callsitesFree pc h' pc')
    (hdata : ∀ a id, h.lookup a = some id → h.stackOf id = some a) (hfit : Fits h pc) {id : ℕ}
    {ips : List ℕ} (hc : pc'.countsUnder = some (id, ips)) :
    pc.countsUnder = some (id, ips) ∨ h'.stackOf id = some ips := by
  cases hnext with
  | lookupHit _ hl => cases hc; exact Or.inr (hdata _ _ hl)
  | entryOccupied _ hl => cases hc; exact Or.inr (hdata _ _ hl)
  | bind => cases hc; exact Or.inr hfit.2
  | findSome _ => exact Or.inl hc
  | allocObjects => exact Or.inl hc
  | allocBytes => exact Or.inl hc
  | inuseObjects => exact Or.inl hc
  | removeNone _ => rw [countsUnder_afterRemoving] at hc; cases hc
  | settleNone _ => rw [countsUnder_afterRemoving] at hc; cases hc
  | subBytes => rw [countsUnder_afterRemoving] at hc; cases hc
  | clearShard => rw [countsUnder_afterShard] at hc; cases hc
  | _ => cases hc

end Pc

namespace Pool

variable [DecidableEq Thread] [Fintype Thread] {s s' : Pool Thread} {m : Move Thread}

/-- What a run without resets keeps: names fit together, bound stacks keep their ids, and
who held its own id still does. -/
structure Settled (s s' : Pool Thread) : Prop where
  named : Named s'.heap s'.pc
  noReset : s'.NoReset
  lookup : ∀ a id, s.heap.lookup a = some id → s'.heap.lookup a = some id
  holds : ∀ t, s.HoldsOwn t → s'.HoldsOwn t

omit [DecidableEq Thread] [Fintype Thread] in
theorem Settled.refl (hn : Named s.heap s.pc) (hno : s.NoReset) : s.Settled s :=
  ⟨hn, hno, fun _ _ h => h, fun _ h => h⟩

omit [DecidableEq Thread] [Fintype Thread] in
theorem not_drawsWhileClearing (hno : s.NoReset) (m : Move Thread) : ¬s.DrawsWhileClearing m := by
  intro hm
  cases m with
  | advance t =>
    obtain ⟨-, u, hu⟩ := hm
    have := Pc.isResetting_of_clears hu
    rw [hno u] at this
    cases this
  | _ => exact hm

/-- **One step that begins no reset**, from a pool without one. -/
theorem settled_step (hn : Named s.heap s.pc) (hno : s.NoReset) (hm : m.isReset = false)
    (h : s.step m = some s') : s.Settled s' := by
  have hn' := named_step hn (not_drawsWhileClearing hno m) h
  -- a thread that begins an operation holds no id yet; the others are where they were
  have hbegin : ∀ t pc', pc'.isResetting = false → pc'.hand = none →
      (∀ u, (Function.update s.pc t pc' u).isResetting = false) ∧
      ∀ u, s.HoldsOwn u → ∀ id ips, (Function.update s.pc t pc' u).hand = some (id, ips) →
        s.heap.lookup ips = some id := by
    intro t pc' hres hhand
    constructor
    · intro u
      by_cases hu : u = t
      · rw [hu, Function.update_self, hres]
      · rw [Function.update_of_ne hu, hno u]
    · intro u hown id ips hh
      by_cases hu : u = t
      · rw [hu, Function.update_self, hhand] at hh
        cases hh
      · rw [Function.update_of_ne hu] at hh
        exact hown id ips hh
  cases step_spec h with
  | null => exact Settled.refl hn hno
  | beginSampled _ _ => exact ⟨hn', (hbegin _ _ rfl rfl).1, fun _ _ h => h, (hbegin _ _ rfl rfl).2⟩
  | allocUnsampled _ _ => exact ⟨hn', hno, fun _ _ h => h, fun _ h => h⟩
  | beginDealloc _ _ _ =>
    exact ⟨hn', (hbegin _ _ rfl rfl).1, fun _ _ h => h, (hbegin _ _ rfl rfl).2⟩
  | beginRealloc _ _ _ _ =>
    exact ⟨hn', (hbegin _ _ rfl rfl).1, fun _ _ h => h, (hbegin _ _ rfl rfl).2⟩
  | beginReset _ => cases hm
  | @advance t h' pc' hnext =>
    have hkeep : ∀ a id, s.heap.lookup a = some id → h'.lookup a = some id :=
      fun _ _ hl => hnext.lookup (hno t) (hn.fits t) hl
    refine ⟨hn', ?_, hkeep, ?_⟩
    · intro u
      show (Function.update s.pc t pc' u).isResetting = false
      by_cases hu : u = t
      · rw [hu, Function.update_self, hnext.isResetting (hno t)]
      · rw [Function.update_of_ne hu, hno u]
    · intro u hown id ips hh
      show h'.lookup ips = some id
      replace hh : (Function.update s.pc t pc' u).hand = some (id, ips) := hh
      by_cases hu : u = t
      · subst hu
        rw [Function.update_self] at hh
        rcases hnext.hand hh with hold | hl
        · -- it held the id already, and the binding stays
          exact hkeep _ _ (hown id ips hold)
        · exact hl
      · rw [Function.update_of_ne hu] at hh
        exact hkeep _ _ (hown id ips hh)

/-! ### Samples and resets -/

omit [DecidableEq Thread] in
theorem of_callsitesFree (h : s.callsitesFree = true) (u : Thread) :
    (s.pc u).readsCallsites = false :=
  decide_eq_true_eq.mp h u

/-- The same as `Counts`, in the terms of `Named`. -/
def OwnStack (s : Pool Thread) (t : Thread) : Prop :=
  ∀ id ips, (s.pc t).countsUnder = some (id, ips) → s.heap.stackOf id = some ips

omit [DecidableEq Thread] [Fintype Thread] in
theorem OwnStack.counts {t : Thread} (h : s.OwnStack t) : s.Counts t := by
  intro id ips hc
  obtain ⟨d, hd, hips⟩ := Option.map_eq_some_iff.mp (h id ips hc)
  exact ⟨d, hd, hips⟩

/-- **One step leaves the data a thread counts on**, unless it clears them under the thread's
sample: once the thread has its data it holds the read lock. -/
theorem ownStack_step (hn : Named s.heap s.pc) {t : Thread} (hown : s.OwnStack t)
    (hm : ¬s.ClearsUnder t m) (h : s.step m = some s') : s'.OwnStack t := by
  -- a thread that begins an operation has no id yet
  have hbegin : ∀ u pc', pc'.countsUnder = none → ∀ id ips,
      (Function.update s.pc u pc' t).countsUnder = some (id, ips) →
        s.heap.stackOf id = some ips := by
    intro u pc' hnone id ips hc
    by_cases htu : t = u
    · rw [htu, Function.update_self, hnone] at hc
      cases hc
    · rw [Function.update_of_ne htu] at hc
      exact hown id ips hc
  cases step_spec h with
  | null => exact hown
  | beginSampled _ _ => exact hbegin _ _ rfl
  | allocUnsampled _ _ => exact hown
  | beginDealloc _ _ _ => exact hbegin _ _ rfl
  | beginRealloc _ _ _ _ => exact hbegin _ _ rfl
  | beginReset _ => exact hbegin _ _ rfl
  | @advance u h' pc' hnext =>
    intro id ips hc
    show h'.stackOf id = some ips
    replace hc : (Function.update s.pc u pc' t).countsUnder = some (id, ips) := hc
    by_cases hclears : s.pc u = .resetting .callsites
    · -- the thread that clears found no reader, so `t` is at its lookup if it has an id
      exfalso
      have htu : t ≠ u := by
        rintro rfl
        rw [Function.update_self] at hc
        rw [hclears] at hnext
        cases hnext
        cases hc
      rw [Function.update_of_ne htu] at hc
      rw [hclears] at hnext
      cases hnext with
      | clearCallsites hfree =>
        exact hm ⟨hclears, Pc.finds_of_countsUnder hc (of_callsitesFree hfree t)⟩
    · have hkeep : s.heap.stackOf id = some ips → h'.stackOf id = some ips :=
        hnext.stackOf hclears (hn.fits u)
      by_cases htu : t = u
      · subst htu
        rw [Function.update_self] at hc
        rcases hnext.countsUnder hn.data (hn.fits t) hc with hold | hdata
        · exact hkeep (hown id ips hold)
        · exact hdata
      · rw [Function.update_of_ne htu] at hc
        exact hkeep (hown id ips hc)

theorem named_of_reach (hn : Named s.heap s.pc)
    (h : Machine.Reach step (fun s m => ¬s.DrawsWhileClearing m) s s') : Named s'.heap s'.pc :=
  h.invariant (I := fun s => Named s.heap s.pc) hn fun _ _ _ hn hm hst => named_step hn hm hst

/-- **The callsite tables are consistent whenever no reset is under way**, in every run
that draws no id between the steps of a reset; and what a thread samples from then on, with any
resets in between, is counted, and counted for its own stack, while no reset clears the data under
one of its samples. -/
theorem consistent_of_reach (rate : ℕ) (bytesLeft : Thread → ℤ) (sizes : ℕ → Option ℕ)
    (h : Machine.Reach step (fun s m => ¬s.DrawsWhileClearing m) (init rate bytesLeft sizes) s) :
    (s.NoReset → s.heap.Consistent) ∧
      ∀ t, s.pc t = .idle → ∀ s',
        Machine.Reach step (fun s m => ¬s.DrawsWhileClearing m ∧ ¬s.ClearsUnder t m) s s' →
          s'.Counts t := by
  have hn := named_of_reach Named.new h
  refine ⟨fun _ => hn.consistent, ?_⟩
  intro t hidle s' hreach
  have hstart : s.OwnStack t := by
    intro id ips hc
    rw [hidle] at hc
    cases hc
  have hboth : Named s'.heap s'.pc ∧ s'.OwnStack t := by
    refine hreach.invariant (I := fun s => Named s.heap s.pc ∧ s.OwnStack t) ⟨hn, hstart⟩ ?_
    exact fun _ _ _ hI hm hst => ⟨named_step hI.1 hm.1 hst, ownStack_step hI.1 hI.2 hm.2 hst⟩
  exact hboth.2.counts

/-- The moves of a thread that goes on for a number of steps. -/
def advances (t : Thread) (n : ℕ) : List (Move Thread) := List.replicate n (.advance t)

/-- One thread resets while the other samples: the sample is over before the reset gets
to the stack map. -/
def resetAfterSample : List (Move Bool) :=
  .reset true :: advances true 32 ++ .alloc false 4096 1024 [7, 8] :: advances false 11 ++
    advances true 3

/-- The same stack is sampled again, and counted while the next reset waits for the data. -/
def resetDuringSample : List (Move Bool) :=
  .alloc false 8192 1024 [7, 8] :: advances false 6 ++ .reset true :: advances true 33

theorem consistent_of_reach_resetAfterSample :
    ∃ s s' : Pool Bool,
      Machine.run step (init 512 (fun _ => 0) (fun _ => none)) resetAfterSample = some s ∧
      s.NoReset ∧ s.heap.Consistent ∧
      Machine.run step s resetDuringSample = some s' ∧ s'.Counts false ∧
      (s'.pc false).countsUnder = some (1, [7, 8]) ∧ s'.pc true = .resetting .callsites := by
  have hall : Machine.Throughout step (fun s m => ¬s.DrawsWhileClearing m)
      (init 512 (fun _ => 0) (fun _ => none)) resetAfterSample := by decide +kernel
  have hidle : (Machine.run step (init 512 (fun _ => 0) (fun _ => none)) resetAfterSample).map
      (fun s : Pool Bool => (s.pc true, s.pc false,
        decide (Machine.Throughout step
          (fun s m => ¬s.DrawsWhileClearing m ∧ ¬s.ClearsUnder false m) s resetDuringSample))) =
      some (.idle, .idle, true) := by
    decide +kernel
  have hlater : ((Machine.run step (init 512 (fun _ => 0) (fun _ => none)) resetAfterSample).bind
      fun s : Pool Bool => (Machine.run step s resetDuringSample).map fun s' =>
        ((s'.pc false).countsUnder, s'.pc true)) =
      some (some (1, [7, 8]), .resetting .callsites) := by
    decide +kernel
  obtain ⟨s, hs, hobs⟩ := Option.map_eq_some_iff.mp hidle
  simp only [Prod.mk.injEq, decide_eq_true_eq] at hobs
  obtain ⟨htrue, hfalse, hall'⟩ := hobs
  rw [hs, Option.bind_some] at hlater
  obtain ⟨s', hs', hobs'⟩ := Option.map_eq_some_iff.mp hlater
  rw [Prod.mk.injEq] at hobs'
  have hno : s.NoReset := by
    intro t
    cases t with
    | true => rw [htrue]; rfl
    | false => rw [hfalse]; rfl
  have hboth := consistent_of_reach 512 (fun _ => 0) (fun _ => none)
    (Machine.Reach.of_throughout hall hs)
  exact ⟨s, s', hs, hno, hboth.1 hno, hs',
    hboth.2 false hfalse s' (Machine.Reach.of_throughout hall' hs'), hobs'.1, hobs'.2⟩

/-- One thread resets, and the other creates a callsite just after the stack map is clear. -/
def sampleInsideReset : List (Move Bool) :=
  .reset true :: advances true 33 ++ .alloc false 4096 1024 [7, 8] :: advances false 11 ++
    advances true 2

/-- The stack keeps its id, but the data are gone: what is sampled on it from then on is
never counted. -/
theorem sampleInsideReset_inconsistent :
    ∃ s : Pool Bool, Machine.run step (init 512 (fun _ => 0) (fun _ => none)) sampleInsideReset =
      some s ∧ s.NoReset ∧ ¬s.heap.Consistent := by
  have hrun : (Machine.run step (init 512 (fun _ => 0) (fun _ => none)) sampleInsideReset).map
      (fun s : Pool Bool =>
        (s.pc true, s.pc false, s.heap.lookup [7, 8], s.heap.callsites.get? 1)) =
        some (.idle, .idle, some 1, none) := by decide +kernel
  obtain ⟨s, hs, hobs⟩ := Option.map_eq_some_iff.mp hrun
  simp only [Prod.mk.injEq] at hobs
  obtain ⟨htrue, hfalse, hlook, hdata⟩ := hobs
  refine ⟨s, hs, ?_, fun hc => ?_⟩
  · intro t
    cases t with
    | true => rw [htrue]; rfl
    | false => rw [hfalse]; rfl
  · obtain ⟨d, hd, -⟩ := hc.data _ _ hlook
    rw [hdata] at hd
    cases hd

end Pool

end Rpprof
