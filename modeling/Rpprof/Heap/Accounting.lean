import Rpprof.Heap.LiveEntries

/-!
# Counters under threads

The counters of each callsite while threads allocate and free.  An operation changes a
counter and an entry in different steps, so a counter is what the live entries add up to
together with what is in flight: an allocation that is counted and whose entry is not in
yet, a free whose entry is out and not yet subtracted.

## Main definitions

* `Pc.objectsInFlight`, `Pc.bytesInFlight` — a thread's share of the in-use counters.
* `Pc.samplesPending`, `Pc.bytesPending` — what a thread is still to add to the
  allocation counters.
* `Books` — every counter with what is in flight.
* `Pool.Orderly` — what a run of allocations and frees keeps.
* `Pool.Accounts` — in-use counters and ids in any state.

## Main results

* `Pc.Next.inuse`, `Pc.Next.counted` — a step moves a counter exactly as it moves entries
  and what is in flight.
* `Books.advance`, `Pool.Orderly.step` — so the books balance after every step.
* `Pool.accounts_of_reach` — in-use counters are never negative, ids are for ever, and
  with no operation under way every counter is exact.
-/

namespace Rpprof

open HeapState (Sample capture sampleObjects sampleBytes)

variable {Thread : Type}

namespace HeapState

/-- The data under an id; where there are none, all counters are zero. -/
def dataAt (h : HeapState) (id : ℕ) : CallsiteData :=
  (h.callsites.get? id).getD (CallsiteData.fresh [])

/-- What the callsites of a stack have counted, by some counter. -/
def counted (h : HeapState) (counter : CallsiteData → ℕ) (ips : List ℕ) : ℕ :=
  h.callsites.valueSum fun d => if d.ips = ips then counter d else 0

variable {h : HeapState} {id : ℕ} {ips : List ℕ}

theorem exists_of_stackOf (hs : h.stackOf id = some ips) :
    ∃ d, h.callsites.get? id = some d ∧ d.ips = ips :=
  Option.map_eq_some_iff.mp hs

theorem dataAt_updateCallsite (hs : h.stackOf id = some ips) (f : CallsiteData → CallsiteData)
    (a : ℕ) : (h.updateCallsite id f).dataAt a = if id = a then f (h.dataAt a) else h.dataAt a := by
  obtain ⟨d, hd, -⟩ := exists_of_stackOf hs
  rw [dataAt, callsites_updateCallsite]
  split
  · next heq => rw [dataAt, ← heq, hd]; rfl
  · rfl

/-- New data count nothing. -/
theorem dataAt_insertCallsite (hs : h.stackOf id = none) (ips : List ℕ) (a : ℕ) :
    ((h.insertCallsite id ips).dataAt a).inuseObjects = (h.dataAt a).inuseObjects ∧
      ((h.insertCallsite id ips).dataAt a).inuseBytes = (h.dataAt a).inuseBytes := by
  have hnone : h.callsites.get? id = none := Option.map_eq_none_iff.mp hs
  have hget : (h.insertCallsite id ips).callsites.get? a =
      if id = a then some (CallsiteData.fresh ips) else h.callsites.get? a := by
    show (h.callsites.insert id _).get? a = _
    rw [Table.get?_insert]
    simp only [beq_iff_eq]
  rw [dataAt, dataAt, hget]
  split
  · next heq =>
    rw [← heq, hnone]
    exact ⟨rfl, rfl⟩
  · exact ⟨rfl, rfl⟩

theorem counted_insertCallsite (hs : h.stackOf id = none) (ips a : List ℕ)
    {counter : CallsiteData → ℕ} (hzero : counter (CallsiteData.fresh ips) = 0) :
    (h.insertCallsite id ips).counted counter a = h.counted counter a := by
  have hnone : h.callsites.get? id = none := Option.map_eq_none_iff.mp hs
  show (h.callsites.insert id _).valueSum _ = _
  rw [Table.valueSum_insert_of_none _ hnone, hzero, ite_self, zero_add]
  rfl

/-- An update moves what its own stack has counted, and nothing else. -/
theorem counted_updateCallsite (hs : h.stackOf id = some ips) {f : CallsiteData → CallsiteData}
    (hf : ∀ d, (f d).ips = d.ips) (counter : CallsiteData → ℕ) {n : ℕ}
    (hn : ∀ d, counter (f d) = counter d + n) (a : List ℕ) :
    (h.updateCallsite id f).counted counter a =
      h.counted counter a + if ips = a then n else 0 := by
  obtain ⟨d, hd, hips⟩ := exists_of_stackOf hs
  have hsum := Table.valueSum_modify (fun d => if d.ips = a then counter d else 0) hd f
  simp only [hf, hips, hn] at hsum
  show (h.callsites.modify id f).valueSum _ = _
  rw [counted]
  split at hsum <;> split <;> first | omega | contradiction

end HeapState

namespace Pc

/-- A thread's share of `inuse_objects`: counted and not in the tables yet, or out of them
and not subtracted yet. -/
def objectsInFlight (id : ℕ) : Pc → ℕ
  | sampling (.inuseBytes i) _ _ _ | sampling (.insert i) _ _ _ => if i = id then 1 else 0
  | removing (.find i _) _ _ | removing (.inuseObjects i _) _ _ => if i = id then 1 else 0
  | _ => 0

/-- A thread's share of `inuse_bytes`. -/
def bytesInFlight (id : ℕ) : Pc → ℕ
  | sampling (.insert i) _ size _ => if i = id then size else 0
  | removing (.find i size) _ _ | removing (.inuseObjects i size) _ _ => if i = id then size else 0
  | removing (.inuseBytes i size) _ _ => if i = id then size else 0
  | _ => 0

/-- The samples a thread is still to add to `alloc_objects`. -/
def samplesPending (ips : List ℕ) : Pc → ℕ
  | sampling .lookup _ _ a | sampling .acquire _ _ a | sampling .draw _ _ a =>
    if a = ips then 1 else 0
  | sampling (.fill _) _ _ a | sampling (.bind _) _ _ a => if a = ips then 1 else 0
  | sampling (.find _) _ _ a | sampling (.allocObjects _) _ _ a => if a = ips then 1 else 0
  | _ => 0

/-- The bytes a thread is still to add to `alloc_bytes`. -/
def bytesPending (ips : List ℕ) : Pc → ℕ
  | sampling .lookup _ size a | sampling .acquire _ size a | sampling .draw _ size a =>
    if a = ips then size else 0
  | sampling (.fill _) _ size a | sampling (.bind _) _ size a => if a = ips then size else 0
  | sampling (.find _) _ size a | sampling (.allocObjects _) _ size a =>
    if a = ips then size else 0
  | sampling (.allocBytes _) _ size a => if a = ips then size else 0
  | _ => 0

/-- What the books need of a thread that goes on: the id in its hands has data, its block
has no entry yet, and it is not in the middle of a move or a reset. -/
def Provided (h : HeapState) : Pc → Prop
  | sampling (.fill id) _ _ _ => h.stackOf id = none
  | sampling (.find id) _ _ ips | sampling (.allocObjects id) _ _ ips => h.stackOf id = some ips
  | sampling (.allocBytes id) _ _ ips => h.stackOf id = some ips
  | sampling (.inuseObjects id) _ _ ips => h.stackOf id = some ips
  | sampling (.inuseBytes id) _ _ ips => h.stackOf id = some ips
  | sampling (.insert _) ptr _ _ => h.liveAt ptr = none
  | removing .remove _ after => after = .release
  | removing (.find id _) _ after => (∃ ips, h.stackOf id = some ips) ∧ after = .release
  | removing (.inuseObjects id _) _ after => (∃ ips, h.stackOf id = some ips) ∧ after = .release
  | removing (.inuseBytes id _) _ after => (∃ ips, h.stackOf id = some ips) ∧ after = .release
  | resetting _ => False
  | _ => True

variable {h h' : HeapState} {mapFree callsitesFree : Bool} {p p' : Pc}

theorem liveObjects_updateCallsite (h : HeapState) (i : ℕ) (f : CallsiteData → CallsiteData)
    (id : ℕ) : (h.updateCallsite i f).liveObjects id = h.liveObjects id := rfl

theorem liveBytes_updateCallsite (h : HeapState) (i : ℕ) (f : CallsiteData → CallsiteData)
    (id : ℕ) : (h.updateCallsite i f).liveBytes id = h.liveBytes id := rfl

/-- An update that adds to the in-use counters adds to those of its callsite only. -/
theorem inuse_updateCallsite {i : ℕ} {ips : List ℕ} (hs : h.stackOf i = some ips)
    {f : CallsiteData → CallsiteData} {a b : ℤ}
    (hobj : ∀ d, (f d).inuseObjects = d.inuseObjects + a)
    (hbyt : ∀ d, (f d).inuseBytes = d.inuseBytes + b) (id : ℕ) :
    ((h.updateCallsite i f).dataAt id).inuseObjects =
        (h.dataAt id).inuseObjects + (if i = id then a else 0) ∧
      ((h.updateCallsite i f).dataAt id).inuseBytes =
        (h.dataAt id).inuseBytes + (if i = id then b else 0) := by
  rw [HeapState.dataAt_updateCallsite hs]
  by_cases hid : i = id
  · rw [if_pos hid, if_pos hid, if_pos hid]
    exact ⟨hobj _, hbyt _⟩
  · rw [if_neg hid, if_neg hid, if_neg hid, add_zero, add_zero]
    exact ⟨rfl, rfl⟩

/-- **A step moves the in-use counters of a callsite exactly as it moves its entries and
what is in flight.** -/
theorem Next.inuse (hnext : Next h mapFree callsitesFree p h' p') (hp : Provided h p) (id : ℕ) :
    (h'.dataAt id).inuseObjects + (h.liveObjects id + p.objectsInFlight id : ℕ) =
      (h.dataAt id).inuseObjects + (h'.liveObjects id + p'.objectsInFlight id : ℕ) ∧
    (h'.dataAt id).inuseBytes + (h.liveBytes id + p.bytesInFlight id : ℕ) =
      (h.dataAt id).inuseBytes + (h'.liveBytes id + p'.bytesInFlight id : ℕ) := by
  cases hnext with
  | fill _ =>
    obtain ⟨hobj, hbyt⟩ := HeapState.dataAt_insertCallsite hp _ id
    rw [hobj, hbyt]
    exact ⟨rfl, rfl⟩
  | findNone hnone =>
    obtain ⟨d, hd, -⟩ := HeapState.exists_of_stackOf hp
    rw [hnone] at hd
    cases hd
  | @allocObjects ptr size ips i =>
    obtain ⟨hobj, hbyt⟩ := inuse_updateCallsite (f := CallsiteData.addAllocObjects) hp
      (fun _ => (add_zero _).symm) (fun _ => (add_zero _).symm) id
    rw [hobj, hbyt, ite_self, add_zero, add_zero]
    exact ⟨rfl, rfl⟩
  | @allocBytes ptr size ips i =>
    obtain ⟨hobj, hbyt⟩ := inuse_updateCallsite (f := CallsiteData.addAllocBytes size) hp
      (fun _ => (add_zero _).symm) (fun _ => (add_zero _).symm) id
    rw [hobj, hbyt, ite_self, add_zero, add_zero]
    exact ⟨rfl, rfl⟩
  | @inuseObjects ptr size ips i =>
    obtain ⟨hobj, hbyt⟩ := inuse_updateCallsite (f := CallsiteData.addInuseObjects) hp
      (fun _ => rfl) (fun _ => (add_zero _).symm) id
    rw [hobj, hbyt, liveObjects_updateCallsite, liveBytes_updateCallsite]
    simp only [objectsInFlight, bytesInFlight]
    split <;> omega
  | @inuseBytes ptr size ips i =>
    obtain ⟨hobj, hbyt⟩ := inuse_updateCallsite (f := CallsiteData.addInuseBytes size) hp
      (fun _ => (add_zero _).symm) (fun _ => rfl) id
    rw [hobj, hbyt, liveObjects_updateCallsite, liveBytes_updateCallsite]
    simp only [objectsInFlight, bytesInFlight]
    split <;> omega
  | @insert ptr size ips i =>
    have hdata : (h.insertLive ptr i size).dataAt id = h.dataAt id := rfl
    have hobj : (h.insertLive ptr i size).liveObjects id =
        h.liveObjects id + if i = id then 1 else 0 :=
      HeapState.liveSum_insertLive_of_none hp i size (HeapState.objectsOf id)
    have hbyt : (h.insertLive ptr i size).liveBytes id =
        h.liveBytes id + if i = id then size else 0 :=
      HeapState.liveSum_insertLive_of_none hp i size (HeapState.bytesOf id)
    rw [hdata, hobj, hbyt]
    simp only [objectsInFlight, bytesInFlight, Nat.add_zero, and_self]
  | @removeSome ptr after i size hv =>
    have hdata : (h.eraseLive ptr).dataAt id = h.dataAt id := rfl
    have hobj : (h.eraseLive ptr).liveObjects id + (if i = id then 1 else 0) =
        h.liveObjects id := HeapState.liveSum_eraseLive hv (HeapState.objectsOf id)
    have hbyt : (h.eraseLive ptr).liveBytes id + (if i = id then size else 0) =
        h.liveBytes id := HeapState.liveSum_eraseLive hv (HeapState.bytesOf id)
    rw [hdata, ← hobj, ← hbyt]
    simp only [objectsInFlight, bytesInFlight, Nat.add_zero, and_self]
  | removeNone _ =>
    rw [show _ = After.release from hp]
    exact ⟨rfl, rfl⟩
  | settleNone hnone =>
    obtain ⟨⟨ips, hs⟩, -⟩ := hp
    obtain ⟨d, hd, -⟩ := HeapState.exists_of_stackOf hs
    rw [hnone] at hd
    cases hd
  | @subObjects ptr after i size =>
    obtain ⟨⟨ips, hs⟩, -⟩ := hp
    obtain ⟨hobj, hbyt⟩ := inuse_updateCallsite (f := CallsiteData.subInuseObjects) hs
      (fun _ => sub_eq_add_neg _ _) (fun _ => (add_zero _).symm) id
    rw [hobj, hbyt, liveObjects_updateCallsite, liveBytes_updateCallsite]
    simp only [objectsInFlight, bytesInFlight]
    split <;> omega
  | @subBytes ptr after i size =>
    obtain ⟨⟨ips, hs⟩, rfl⟩ := hp
    obtain ⟨hobj, hbyt⟩ := inuse_updateCallsite (f := CallsiteData.subInuseBytes size) hs
      (fun _ => (add_zero _).symm) (fun _ => sub_eq_add_neg _ _) id
    rw [hobj, hbyt, liveObjects_updateCallsite, liveBytes_updateCallsite]
    simp only [objectsInFlight, bytesInFlight, afterRemoving]
    split <;> omega
  | clearShard => cases hp
  | clearMap _ => cases hp
  | clearCallsites _ => cases hp
  | storeNextId => cases hp
  | _ => exact ⟨rfl, rfl⟩

/-- An update keeps the counters it does not name. -/
theorem counted_updateCallsite_same {i : ℕ} {ips : List ℕ} (hs : h.stackOf i = some ips)
    (f : CallsiteData → CallsiteData) (hips : ∀ d, (f d).ips = d.ips)
    (counter : CallsiteData → ℕ) (hcounter : ∀ d, counter (f d) = counter d) (a : List ℕ) :
    (h.updateCallsite i f).counted counter a = h.counted counter a := by
  rw [HeapState.counted_updateCallsite hs hips counter (n := 0) hcounter, ite_self]
  rfl

/-- An update of the in-use counters keeps both allocation counters. -/
theorem counted_of_inuse {i : ℕ} {ips : List ℕ} (hs : h.stackOf i = some ips)
    (f : CallsiteData → CallsiteData) (hips : ∀ d, (f d).ips = d.ips)
    (hobj : ∀ d, (f d).allocObjects = d.allocObjects)
    (hbyt : ∀ d, (f d).allocBytes = d.allocBytes) (a : List ℕ) :
    (h.updateCallsite i f).counted CallsiteData.allocObjects a =
        h.counted CallsiteData.allocObjects a ∧
      (h.updateCallsite i f).counted CallsiteData.allocBytes a =
        h.counted CallsiteData.allocBytes a :=
  ⟨counted_updateCallsite_same hs f hips _ hobj a, counted_updateCallsite_same hs f hips _ hbyt a⟩

/-- **A step moves the allocation counters of a stack exactly as it moves what is still
to be added to them.** -/
theorem Next.counted (hnext : Next h mapFree callsitesFree p h' p') (hp : Provided h p)
    (a : List ℕ) :
    h'.counted CallsiteData.allocObjects a + p'.samplesPending a =
      h.counted CallsiteData.allocObjects a + p.samplesPending a ∧
    h'.counted CallsiteData.allocBytes a + p'.bytesPending a =
      h.counted CallsiteData.allocBytes a + p.bytesPending a := by
  cases hnext with
  | fill _ =>
    rw [HeapState.counted_insertCallsite hp _ _ rfl, HeapState.counted_insertCallsite hp _ _ rfl]
    exact ⟨rfl, rfl⟩
  | findNone hnone =>
    obtain ⟨d, hd, -⟩ := HeapState.exists_of_stackOf hp
    rw [hnone] at hd
    cases hd
  | @allocObjects ptr size ips i =>
    rw [counted_updateCallsite_same hp CallsiteData.addAllocObjects (fun _ => rfl)
        CallsiteData.allocBytes (fun _ => rfl),
      HeapState.counted_updateCallsite (f := CallsiteData.addAllocObjects) hp (fun _ => rfl)
        CallsiteData.allocObjects (n := 1) fun _ => rfl]
    exact ⟨rfl, rfl⟩
  | @allocBytes ptr size ips i =>
    rw [counted_updateCallsite_same hp (CallsiteData.addAllocBytes size) (fun _ => rfl)
        CallsiteData.allocObjects (fun _ => rfl),
      HeapState.counted_updateCallsite (f := CallsiteData.addAllocBytes size) hp (fun _ => rfl)
        CallsiteData.allocBytes (n := size) fun _ => rfl]
    exact ⟨rfl, rfl⟩
  | inuseObjects =>
    obtain ⟨hobj, hbyt⟩ := counted_of_inuse hp CallsiteData.addInuseObjects (fun _ => rfl)
      (fun _ => rfl) (fun _ => rfl) a
    rw [hobj, hbyt]
    exact ⟨rfl, rfl⟩
  | @inuseBytes ptr size ips i =>
    obtain ⟨hobj, hbyt⟩ := counted_of_inuse hp (CallsiteData.addInuseBytes size) (fun _ => rfl)
      (fun _ => rfl) (fun _ => rfl) a
    rw [hobj, hbyt]
    exact ⟨rfl, rfl⟩
  | removeNone _ =>
    rw [show _ = After.release from hp]
    exact ⟨rfl, rfl⟩
  | settleNone hnone =>
    obtain ⟨⟨ips, hs⟩, -⟩ := hp
    obtain ⟨d, hd, -⟩ := HeapState.exists_of_stackOf hs
    rw [hnone] at hd
    cases hd
  | subObjects =>
    obtain ⟨⟨ips, hs⟩, -⟩ := hp
    obtain ⟨hobj, hbyt⟩ := counted_of_inuse hs CallsiteData.subInuseObjects (fun _ => rfl)
      (fun _ => rfl) (fun _ => rfl) a
    rw [hobj, hbyt]
    exact ⟨rfl, rfl⟩
  | @subBytes ptr after i size =>
    obtain ⟨⟨ips, hs⟩, rfl⟩ := hp
    obtain ⟨hobj, hbyt⟩ := counted_of_inuse hs (CallsiteData.subInuseBytes size) (fun _ => rfl)
      (fun _ => rfl) (fun _ => rfl) a
    rw [hobj, hbyt]
    exact ⟨rfl, rfl⟩
  | clearShard => cases hp
  | clearMap _ => cases hp
  | clearCallsites _ => cases hp
  | storeNextId => cases hp
  | _ => exact ⟨rfl, rfl⟩

end Pc

/-! ### The books -/

/-- Every counter is what the entries and the samples add up to, with what is in flight. -/
structure Books [Fintype Thread] (h : HeapState) (pc : Thread → Pc) (samples : List Sample) :
    Prop where
  objects : ∀ id, (h.dataAt id).inuseObjects =
    (h.liveObjects id + ∑ t, (pc t).objectsInFlight id : ℕ)
  bytes : ∀ id, (h.dataAt id).inuseBytes = (h.liveBytes id + ∑ t, (pc t).bytesInFlight id : ℕ)
  allocObjects : ∀ ips, h.counted CallsiteData.allocObjects ips +
    ∑ t, (pc t).samplesPending ips = sampleObjects ips samples
  allocBytes : ∀ ips, h.counted CallsiteData.allocBytes ips + ∑ t, (pc t).bytesPending ips =
    sampleBytes ips samples

namespace Books

variable [DecidableEq Thread] [Fintype Thread] {h h' : HeapState} {pc : Thread → Pc} {t : Thread}
  {p' : Pc} {samples : List Sample}

omit [DecidableEq Thread] in
theorem new : Books HeapState.new (fun _ : Thread => Pc.idle) [] := by
  have hzero : ∀ f, HeapState.new.liveSum f = 0 := fun f =>
    HeapState.liveSum_eq_zero fun p v hv => by cases hv
  have hidle : ∀ f : Pc → ℕ, f .idle = 0 → ∑ _t : Thread, f .idle = 0 :=
    fun f hf => Finset.sum_eq_zero fun _ _ => hf
  constructor
  · intro id
    rw [HeapState.liveObjects, hzero, hidle (Pc.objectsInFlight id) rfl]
    rfl
  · intro id
    rw [HeapState.liveBytes, hzero, hidle (Pc.bytesInFlight id) rfl]
    rfl
  · intro ips
    rw [hidle (Pc.samplesPending ips) rfl]
    rfl
  · intro ips
    rw [hidle (Pc.bytesPending ips) rfl]
    rfl

/-- **A step inside the profiler keeps the books.** -/
theorem advance (hb : Books h pc samples) {mapFree callsitesFree : Bool}
    (hp : Pc.Provided h (pc t)) (hnext : (pc t).Next h mapFree callsitesFree h' p') :
    Books h' (Function.update pc t p') samples := by
  constructor
  · intro id
    have hsum := Finset.sum_apply_update (Pc.objectsInFlight id) pc t p'
    have hmove := (hnext.inuse hp id).1
    have hold := hb.objects id
    omega
  · intro id
    have hsum := Finset.sum_apply_update (Pc.bytesInFlight id) pc t p'
    have hmove := (hnext.inuse hp id).2
    have hold := hb.bytes id
    omega
  · intro ips
    have hsum := Finset.sum_apply_update (Pc.samplesPending ips) pc t p'
    have hmove := (hnext.counted hp ips).1
    have hold := hb.allocObjects ips
    omega
  · intro ips
    have hsum := Finset.sum_apply_update (Pc.bytesPending ips) pc t p'
    have hmove := (hnext.counted hp ips).2
    have hold := hb.allocBytes ips
    omega

omit [DecidableEq Thread] in
/-- What is in flight when an idle thread begins an operation. -/
theorem sum_begin [DecidableEq Thread] {f : Pc → ℕ} (hf : f .idle = 0) (ht : pc t = .idle)
    (p' : Pc) : ∑ j, f (Function.update pc t p' j) = ∑ j, f (pc j) + f p' := by
  have hsum := Finset.sum_apply_update f pc t p'
  rwa [ht, hf, Nat.add_zero] at hsum

/-- An operation begins with nothing in flight, but for its sample. -/
theorem start (hb : Books h pc samples) (ht : pc t = .idle) {samples' : List Sample}
    (hobj : ∀ id, p'.objectsInFlight id = 0) (hbyt : ∀ id, p'.bytesInFlight id = 0)
    (hsamples : ∀ a, sampleObjects a samples' = sampleObjects a samples + p'.samplesPending a)
    (hsizes : ∀ a, sampleBytes a samples' = sampleBytes a samples + p'.bytesPending a) :
    Books h (Function.update pc t p') samples' := by
  constructor
  · intro id
    rw [sum_begin rfl ht, hobj, Nat.add_zero, hb.objects]
  · intro id
    rw [sum_begin rfl ht, hbyt, Nat.add_zero, hb.bytes]
  · intro a
    rw [sum_begin rfl ht, hsamples, ← hb.allocObjects, Nat.add_assoc]
  · intro a
    rw [sum_begin rfl ht, hsizes, ← hb.allocBytes, Nat.add_assoc]

/-- A sample that begins is all still to be added. -/
theorem beginSampled (hb : Books h pc samples) (ht : pc t = .idle) (ptr size : ℕ) (ips : List ℕ) :
    Books h (Function.update pc t (.sampling .lookup ptr size ips)) (⟨ips, size⟩ :: samples) := by
  refine hb.start ht (fun _ => rfl) (fun _ => rfl) ?_ ?_
  · intro a
    rw [sampleObjects, List.countP_cons]
    simp only [decide_eq_true_eq]
    rfl
  · intro a
    rw [sampleBytes, List.filter_cons]
    simp only [decide_eq_true_eq]
    show _ = sampleBytes a samples + if ips = a then size else 0
    split
    · rw [List.map_cons, List.sum_cons, Nat.add_comm]
      rfl
    · rfl

end Books

/-! ### Whole runs -/

/-- The move begins a `realloc`. -/
def Move.isRealloc : Move Thread → Bool
  | .realloc _ _ _ _ _ => true
  | _ => false

namespace Pc

/-- The id of an entry that a thread has taken out and not settled yet. -/
def taken : Pc → Option ℕ
  | removing (.find id _) _ _ | removing (.inuseObjects id _) _ _ => some id
  | removing (.inuseBytes id _) _ _ => some id
  | _ => none

/-- An id that has data and is not bound to its stack yet. -/
def binding : Pc → Option (ℕ × List ℕ)
  | sampling (.bind id) _ _ ips => some (id, ips)
  | _ => none

/-- The thread is in `realloc`, before its sample. -/
def isMoving : Pc → Bool
  | removing _ _ (.sample _ _ _) => true
  | _ => false

variable {h h' : HeapState} {mapFree callsitesFree : Bool} {p p' : Pc}

/-- A thread that is not in `realloc` does not get there by going on. -/
theorem Next.isMoving (hnext : Next h mapFree callsitesFree p h' p') (hp : p.isMoving = false) :
    p'.isMoving = false := by
  have hafter : ∀ {at_ ptr after}, (removing at_ ptr after).isMoving = false →
      (afterRemoving ptr after).isMoving = false := by
    intro at_ ptr after hmov
    cases after with
    | release => rfl
    | sample n size ips => cases hmov
  cases hnext with
  | removeNone _ => exact hafter hp
  | settleNone _ => exact hafter hp
  | subBytes => exact hafter hp
  | removeSome _ => rename_i ptr after _ _ _; cases after <;> exact hp
  | settleSome _ => rename_i ptr after _ _ _ _; cases after <;> exact hp
  | subObjects => rename_i ptr after _ _; cases after <;> exact hp
  | clearShard =>
    unfold afterShard
    split <;> rfl
  | _ => rfl

/-- The id of an entry comes from the tables. -/
theorem Next.taken (hnext : Next h mapFree callsitesFree p h' p') {id : ℕ}
    (ht : p'.taken = some id) :
    p.taken = some id ∨ ∃ ptr v, h.liveAt ptr = some v ∧ v.1 = id := by
  have hafter : ∀ {ptr after}, (afterRemoving ptr after).taken = some id → False := by
    intro ptr after hmov
    cases after <;> cases hmov
  cases hnext with
  | removeSome hv => exact Or.inr ⟨_, _, hv, Option.some.inj ht⟩
  | settleSome _ => exact Or.inl ht
  | subObjects => exact Or.inl ht
  | removeNone _ => exact (hafter ht).elim
  | settleNone _ => exact (hafter ht).elim
  | subBytes => exact (hafter ht).elim
  | clearShard =>
    unfold afterShard at ht
    split at ht <;> cases ht
  | _ => cases ht

/-- The id of a new entry is the one in the thread's hands. -/
theorem Next.liveAt (hnext : Next h mapFree callsitesFree p h' p') {ptr : ℕ} {v : ℕ × ℕ}
    (hres : p.isResetting = false) (hv : h'.liveAt ptr = some v) :
    h.liveAt ptr = some v ∨ ∃ ips, p.hand = some (v.1, ips) := by
  cases hnext with
  | @insert q size ips i =>
    rw [HeapState.liveAt_insertLive] at hv
    split at hv
    · rw [Option.some.injEq] at hv
      rw [← hv]
      exact Or.inr ⟨ips, rfl⟩
    · exact Or.inl hv
  | removeSome _ =>
    rw [HeapState.liveAt_eraseLive] at hv
    split at hv
    · cases hv
    · exact Or.inl hv
  | clearShard => cases hres
  | _ => exact Or.inl hv

/-- An id that has data had them before, or got them just now. -/
theorem Next.stackOf_back (hnext : Next h mapFree callsitesFree p h' p')
    (hres : p.isResetting = false) {id : ℕ} {ips : List ℕ} (hs : h'.stackOf id = some ips) :
    h.stackOf id = some ips ∨ p'.binding = some (id, ips) := by
  have hsame : ∀ i f, (h.updateCallsite i f).stackOf id = some ips →
      (∀ d : CallsiteData, (f d).ips = d.ips) → h.stackOf id = some ips := by
    intro i f hs hf
    rwa [h.stackOf_updateCallsite i hf] at hs
  cases hnext with
  | @fill ptr size a i _ =>
    rw [HeapState.stackOf_insertCallsite] at hs
    split at hs
    · next heq => exact Or.inr (by rw [← heq, ← Option.some.inj hs]; rfl)
    · exact Or.inl hs
  | allocObjects => exact Or.inl (hsame _ _ hs fun _ => rfl)
  | allocBytes => exact Or.inl (hsame _ _ hs fun _ => rfl)
  | inuseObjects => exact Or.inl (hsame _ _ hs fun _ => rfl)
  | inuseBytes => exact Or.inl (hsame _ _ hs fun _ => rfl)
  | subObjects => exact Or.inl (hsame _ _ hs fun _ => rfl)
  | subBytes => exact Or.inl (hsame _ _ hs fun _ => rfl)
  | clearCallsites _ => cases hres
  | _ => exact Or.inl hs

/-- A thread that binds an id goes on by binding it. -/
theorem Next.binding (hnext : Next h mapFree callsitesFree p h' p') {id : ℕ} {ips : List ℕ}
    (hb : p.binding = some (id, ips)) : h'.lookup ips = some id := by
  cases hnext with
  | bind =>
    cases hb
    rw [HeapState.lookup_bindStack, if_pos rfl]
  | _ => cases hb

end Pc

namespace Pool

variable [DecidableEq Thread] [Fintype Thread] {s s' : Pool Thread} {m : Move Thread}

/-- What a run of allocations and frees keeps. -/
structure Orderly (s : Pool Thread) : Prop where
  calm : s.Calm
  recorded : s.Recorded
  noMove : ∀ t, (s.pc t).isMoving = false
  /-- An entry's id has data. -/
  covered : ∀ p v, s.heap.liveAt p = some v → ∃ ips, s.heap.stackOf v.1 = some ips
  /-- So has the id of an entry that was taken out. -/
  taken : ∀ t id, (s.pc t).taken = some id → ∃ ips, s.heap.stackOf id = some ips
  /-- Data are of a bound stack, or of one that is being bound. -/
  bound : ∀ id ips, s.heap.stackOf id = some ips →
    s.heap.lookup ips = some id ∨ ∃ t, (s.pc t).binding = some (id, ips)
  books : Books s.heap s.pc s.samples

namespace Orderly

omit [DecidableEq Thread] in
theorem init (rate : ℕ) (bytesLeft : Thread → ℤ) (sizes : ℕ → Option ℕ) :
    (init rate bytesLeft sizes).Orderly where
  calm := Calm.init rate bytesLeft sizes
  recorded := Recorded.init rate bytesLeft sizes
  noMove := fun _ => rfl
  covered := by intro p v hv; cases hv
  taken := by intro t id ht; cases ht
  bound := by intro id ips hs; cases hs
  books := Books.new

omit [DecidableEq Thread] in
/-- Nobody takes out an entry at an address that is being recorded. -/
theorem liveAt_of_recording (ho : s.Orderly) {t : Thread} {p : ℕ} {c : Cell Thread}
    (hb : s.blocks p = some c) (hphase : c.phase = .recording t) : s.heap.liveAt p = none := by
  cases hv : s.heap.liveAt p with
  | none => rfl
  | some v =>
    exfalso
    rcases ho.recorded.live p v hv with ⟨c', hc', hready, -⟩ | ⟨u, after, hu⟩
    · rw [hb, Option.some.injEq] at hc'
      rw [← hc', hphase] at hready
      cases hready
    · have hown := ho.calm.owned.owns u
      have hmov := ho.noMove u
      rw [hu] at hown hmov
      cases after with
      | release =>
        obtain ⟨c', hc', hfreeing⟩ := hown
        rw [hb, Option.some.injEq] at hc'
        rw [← hc', hphase] at hfreeing
        cases hfreeing
      | sample n size ips => cases hmov

omit [DecidableEq Thread] in
/-- Every thread that goes on is provided for. -/
theorem provided (ho : s.Orderly) (t : Thread) : Pc.Provided s.heap (s.pc t) := by
  have hhand : ∀ id ips, (s.pc t).hand = some (id, ips) → s.heap.stackOf id = some ips :=
    fun id ips hh => ho.calm.named.data ips id (ho.calm.holds t id ips hh)
  have htaken := ho.taken t
  have hmov := ho.noMove t
  have hfit := ho.calm.named.fits t
  have hown := ho.calm.owned.owns t
  have hres := ho.calm.noReset t
  generalize s.pc t = p at hhand htaken hmov hfit hown hres
  cases p with
  | sampling at_ ptr size ips =>
    cases at_ with
    | fill id => exact hfit.2.1
    | find id => exact hhand id ips rfl
    | allocObjects id => exact hhand id ips rfl
    | allocBytes id => exact hhand id ips rfl
    | inuseObjects id => exact hhand id ips rfl
    | inuseBytes id => exact hhand id ips rfl
    | insert id => exact ho.liveAt_of_recording hown rfl
    | _ => trivial
  | removing at_ ptr after =>
    cases after with
    | sample n size ips => cases hmov
    | release =>
      cases at_ with
      | remove => rfl
      | find id size => exact ⟨htaken id rfl, rfl⟩
      | inuseObjects id size => exact ⟨htaken id rfl, rfl⟩
      | inuseBytes id size => exact ⟨htaken id rfl, rfl⟩
  | resetting at_ => cases hres
  | _ => trivial

theorem steals_eq_false (ho : s.Orderly) (m : Move Thread) : s.steals m = false := by
  cases m with
  | advance t =>
    have hmov := ho.noMove t
    have hoff : (s.pc t).movesOff = none := by
      generalize s.pc t = p at hmov
      cases p with
      | removing at_ ptr after =>
        cases after with
        | release => cases at_ <;> rfl
        | sample n size ips => cases hmov
      | _ => rfl
    simp only [steals, hoff]
  | _ => rfl

/-- An idle thread begins an operation that has taken out no entry and binds no id. -/
theorem begin (ho : s.Orderly) {t : Thread} {p' : Pc} (hheap : s'.heap = s.heap)
    (hpc : s'.pc = Function.update s.pc t p') (ht : s.pc t = .idle) (hmov : p'.isMoving = false)
    (htaken : p'.taken = none) (hcalm : s'.Calm) (hrec : s'.Recorded)
    (hbooks : Books s'.heap s'.pc s'.samples) : s'.Orderly where
  calm := hcalm
  recorded := hrec
  noMove := by
    intro u
    rw [hpc]
    by_cases hu : u = t
    · rw [hu, Function.update_self, hmov]
    · rw [Function.update_of_ne hu, ho.noMove u]
  covered := by
    intro p v hv
    rw [hheap] at hv ⊢
    exact ho.covered p v hv
  taken := by
    intro u id hu
    rw [hheap]
    rw [hpc] at hu
    by_cases hut : u = t
    · rw [hut, Function.update_self, htaken] at hu
      cases hu
    · rw [Function.update_of_ne hut] at hu
      exact ho.taken u id hu
  bound := by
    intro id ips hs
    rw [hheap] at hs ⊢
    rcases ho.bound id ips hs with hl | ⟨u, hu⟩
    · exact Or.inl hl
    · refine Or.inr ⟨u, ?_⟩
      rw [hpc, Function.update_of_ne ?_, hu]
      rintro rfl
      rw [ht] at hu
      cases hu
  books := hbooks

/-- **Going on inside the profiler keeps everything in order.** -/
theorem advance (ho : s.Orderly) {t : Thread} {h' : HeapState} {p' : Pc}
    {mapFree callsitesFree : Bool} (hnext : (s.pc t).Next s.heap mapFree callsitesFree h' p')
    (hheap : s'.heap = h') (hpc : s'.pc = Function.update s.pc t p')
    (hsamples : s'.samples = s.samples) (hcalm : s'.Calm) (hrec : s'.Recorded) : s'.Orderly := by
  have hres := ho.calm.noReset t
  have hfit := ho.calm.named.fits t
  have hstack : ∀ id ips, s.heap.stackOf id = some ips → h'.stackOf id = some ips :=
    fun _ _ hs => hnext.stackOf (Pc.ne_of_isResetting hres _) hfit hs
  refine ⟨hcalm, hrec, ?_, ?_, ?_, ?_, ?_⟩
  · intro u
    rw [hpc]
    by_cases hu : u = t
    · rw [hu, Function.update_self, hnext.isMoving (ho.noMove t)]
    · rw [Function.update_of_ne hu, ho.noMove u]
  · intro p v hv
    rw [hheap] at hv ⊢
    rcases hnext.liveAt hres hv with hold | ⟨ips, hh⟩
    · obtain ⟨ips, hs⟩ := ho.covered p v hold
      exact ⟨ips, hstack _ _ hs⟩
    · have hl := ho.calm.holds t v.1 ips hh
      exact ⟨ips, hstack _ _ (ho.calm.named.data ips v.1 hl)⟩
  · intro u id hu
    rw [hheap]
    rw [hpc] at hu
    have hold : (∃ ips, s.heap.stackOf id = some ips) → ∃ ips, h'.stackOf id = some ips :=
      fun ⟨ips, hs⟩ => ⟨ips, hstack _ _ hs⟩
    by_cases hut : u = t
    · rw [hut, Function.update_self] at hu
      rcases hnext.taken hu with hold' | ⟨p, v, hv, rfl⟩
      · exact hold (ho.taken t id hold')
      · exact hold (ho.covered p v hv)
    · rw [Function.update_of_ne hut] at hu
      exact hold (ho.taken u id hu)
  · intro id ips hs
    rw [hheap] at hs ⊢
    rw [hpc]
    rcases hnext.stackOf_back hres hs with hold | hnew
    · rcases ho.bound id ips hold with hl | ⟨u, hu⟩
      · exact Or.inl (hnext.lookup hres hfit hl)
      · by_cases hut : u = t
        · rw [hut] at hu
          exact Or.inl (hnext.binding hu)
        · exact Or.inr ⟨u, by rw [Function.update_of_ne hut, hu]⟩
    · exact Or.inr ⟨t, by rw [Function.update_self, hnew]⟩
  · rw [hheap, hpc, hsamples]
    exact ho.books.advance (ho.provided t) hnext

/-- **One step of the pool keeps everything in order**, unless it begins a reset or a
move. -/
theorem step (ho : s.Orderly) (hm : m.isReset = false ∧ m.isRealloc = false)
    (h : s.step m = some s') : s'.Orderly := by
  have hcalm : s'.Calm := ho.calm.step hm.1 h
  have hrec : s'.Recorded := recorded_step ho.calm ho.recorded ⟨hm.1, ho.steals_eq_false m⟩ h
  cases step_spec h with
  | null => exact ho
  | beginSampled hidle _ =>
    exact ho.begin rfl rfl hidle rfl rfl hcalm hrec (ho.books.beginSampled hidle _ _ _)
  | allocUnsampled _ _ => exact ⟨hcalm, hrec, ho.noMove, ho.covered, ho.taken, ho.bound, ho.books⟩
  | beginDealloc hidle _ _ =>
    exact ho.begin rfl rfl hidle rfl rfl hcalm hrec
      (ho.books.start hidle (fun _ => rfl) (fun _ => rfl) (fun _ => rfl) fun _ => rfl)
  | beginRealloc _ _ _ _ => cases hm.2
  | beginReset _ => cases hm.1
  | advance hnext => exact ho.advance hnext rfl rfl rfl hcalm hrec

omit [DecidableEq Thread] in
/-- A stack whose id is being bound is not bound yet. -/
theorem lookup_of_binding (ho : s.Orderly) {t : Thread} {id : ℕ} {ips : List ℕ}
    (ht : (s.pc t).binding = some (id, ips)) :
    s.heap.lookup ips = none ∧ (s.pc t).holdsMap = true := by
  have hfit := ho.calm.named.fits t
  generalize s.pc t = p at ht hfit
  cases p with
  | sampling at_ ptr size ips' =>
    cases at_ with
    | bind id' => cases ht; exact ⟨hfit.1, rfl⟩
    | _ => cases ht
  | _ => cases ht

omit [DecidableEq Thread] in
/-- No two ids are of the same stack. -/
theorem unique (ho : s.Orderly) {a b : ℕ} {ips : List ℕ} (ha : s.heap.stackOf a = some ips)
    (hb : s.heap.stackOf b = some ips) : a = b := by
  rcases ho.bound a ips ha with hla | ⟨t, ht⟩ <;> rcases ho.bound b ips hb with hlb | ⟨u, hu⟩
  · rw [hla, Option.some.injEq] at hlb
    exact hlb
  · rw [(ho.lookup_of_binding hu).1] at hla
    cases hla
  · rw [(ho.lookup_of_binding ht).1] at hlb
    cases hlb
  · -- both hold the write lock of the stack map
    have htu := ho.calm.named.one t u (ho.lookup_of_binding ht).2 (ho.lookup_of_binding hu).2
    rw [htu, hu] at ht
    cases ht
    rfl

omit [DecidableEq Thread] in
/-- The data under a stack's id count all samples of the stack. -/
theorem counted_eq (ho : s.Orderly) {id : ℕ} {d : CallsiteData}
    (hd : s.heap.callsites.get? id = some d) (counter : CallsiteData → ℕ) :
    s.heap.counted counter d.ips = counter d := by
  have hown : s.heap.stackOf id = some d.ips := by
    rw [HeapState.stackOf, hd]
    rfl
  have hsum := Table.valueSum_eq_of_unique (fun e : CallsiteData => if e.ips = d.ips then counter e
    else 0) hd ?_
  · rw [if_pos rfl] at hsum
    exact hsum
  · intro p hp hne
    refine if_neg fun hips => ?_
    have hother : s.heap.stackOf p.1 = some d.ips := by
      rw [HeapState.stackOf, Table.get?_of_mem hp, ← hips]
      rfl
    rw [ho.unique hother hown, beq_self_eq_true] at hne
    cases hne

end Orderly

/-- The moves of a run of allocations and frees. -/
def allocsAndFrees (_ : Pool Thread) (m : Move Thread) : Prop :=
  m.isReset = false ∧ m.isRealloc = false

instance (s : Pool Thread) (m : Move Thread) : Decidable (s.allocsAndFrees m) :=
  inferInstanceAs (Decidable (_ ∧ _))

theorem orderly_of_reach (ho : s.Orderly) (h : Machine.Reach step allocsAndFrees s s') :
    s'.Orderly :=
  h.invariant ho fun _ _ _ ho hm hst => ho.step hm hst

/-- Data stay under their id, and of the same stack. -/
theorem stackOf_of_reach (ho : s.Orderly) (h : Machine.Reach step allocsAndFrees s s') {id : ℕ}
    {ips : List ℕ} (hs : s.heap.stackOf id = some ips) : s'.heap.stackOf id = some ips := by
  have hboth : s'.Orderly ∧ s'.heap.stackOf id = some ips := by
    refine h.invariant (I := fun u => u.Orderly ∧ u.heap.stackOf id = some ips) ⟨ho, hs⟩ ?_
    rintro u m u' ⟨hu, hold⟩ hm hst
    refine ⟨hu.step hm hst, ?_⟩
    cases step_spec hst with
    | beginRealloc _ _ _ _ => cases hm.2
    | beginReset _ => cases hm.1
    | @advance t _ _ hnext =>
      exact hnext.stackOf (Pc.ne_of_isResetting (hu.calm.noReset t) _) (hu.calm.named.fits t) hold
    | _ => exact hold
  exact hboth.2

/-- The accounts of every callsite, whatever operations are under way. -/
structure Accounts (s : Pool Thread) : Prop where
  /-- An in-use counter is its live entries and what is in flight, so never negative. -/
  inuse : ∀ id d, s.heap.callsites.get? id = some d →
    (0 ≤ d.inuseObjects ∧ 0 ≤ d.inuseBytes) ∧
    d.inuseObjects = (s.heap.liveObjects id + ∑ t, (s.pc t).objectsInFlight id : ℕ) ∧
    d.inuseBytes = (s.heap.liveBytes id + ∑ t, (s.pc t).bytesInFlight id : ℕ)
  /-- A stack that has an id never gets another, and no other stack ever gets its id. -/
  oneId : ∀ s', Machine.Reach step allocsAndFrees s s' → ∀ a b ida idb,
    s.heap.stackOf ida = some a → s'.heap.stackOf idb = some b → (a = b ↔ ida = idb)
  /-- It is the id that the stack is bound to. -/
  bound : ∀ ips id, s.heap.lookup ips = some id → s.heap.stackOf id = some ips
  /-- It is the id that a sample of the stack is recorded under. -/
  own : ∀ t, s.CountsOwn t

namespace Orderly

/-- The accounts of a run that is under way. -/
theorem accounts (ho : s.Orderly) : s.Accounts where
  inuse := by
    intro id d hd
    have hobj := ho.books.objects id
    have hbyt := ho.books.bytes id
    rw [HeapState.dataAt, hd, Option.getD_some] at hobj hbyt
    exact ⟨⟨by omega, by omega⟩, hobj, hbyt⟩
  oneId := by
    intro s' hreach a b ida idb ha hb
    have ho' := orderly_of_reach ho hreach
    have ha' := stackOf_of_reach ho hreach ha
    constructor
    · rintro rfl
      exact ho'.unique ha' hb
    · rintro rfl
      rw [ha', Option.some.injEq] at hb
      exact hb
  bound := ho.calm.named.data
  own := fun t id ips hh => ho.calm.named.consistent.data ips id (ho.calm.holds t id ips hh)

omit [DecidableEq Thread] in
/-- With no operation under way nothing is in flight. -/
theorem sum_eq_zero_of_idle (hidle : ∀ t, s.pc t = .idle) {f : Pc → ℕ} (hf : f .idle = 0) :
    ∑ t, f (s.pc t) = 0 := by
  apply Finset.sum_eq_zero
  intro t _
  rw [hidle t, hf]

omit [DecidableEq Thread] in
/-- With no operation under way the in-use counters are the live entries. -/
theorem exact (ho : s.Orderly) (hidle : ∀ t, s.pc t = .idle) : s.heap.Exact := by
  intro id d hd
  have hobj := ho.books.objects id
  have hbyt := ho.books.bytes id
  rw [HeapState.dataAt, hd, Option.getD_some, sum_eq_zero_of_idle hidle rfl, Nat.add_zero] at hobj
  rw [HeapState.dataAt, hd, Option.getD_some, sum_eq_zero_of_idle hidle rfl, Nat.add_zero] at hbyt
  exact ⟨hobj, hbyt⟩

omit [DecidableEq Thread] in
/-- With no operation under way the allocation counters are the samples. -/
theorem counts (ho : s.Orderly) (hidle : ∀ t, s.pc t = .idle) : s.heap.Counts s.samples := by
  have hobjects : ∀ ips, s.heap.counted CallsiteData.allocObjects ips =
      sampleObjects ips s.samples := by
    intro ips
    rw [← ho.books.allocObjects ips, sum_eq_zero_of_idle hidle rfl, Nat.add_zero]
  have hbytes : ∀ ips, s.heap.counted CallsiteData.allocBytes ips =
      sampleBytes ips s.samples := by
    intro ips
    rw [← ho.books.allocBytes ips, sum_eq_zero_of_idle hidle rfl, Nat.add_zero]
  constructor
  · intro id d hd
    rw [← hobjects, ← hbytes, ho.counted_eq hd, ho.counted_eq hd]
    exact ⟨rfl, rfl⟩
  · intro x hx hnone
    -- the sample was counted, so its stack has data, and with no operation under way
    -- those are bound
    have hpos : sampleObjects x.ips s.samples ≠ 0 := by
      refine (List.countP_pos_iff.mpr ⟨x, hx, ?_⟩).ne'
      exact decide_eq_true rfl
    apply hpos
    rw [← hobjects]
    refine List.sum_eq_zero fun n hn => ?_
    obtain ⟨⟨id, d⟩, hmem, rfl⟩ := List.mem_map.mp hn
    refine if_neg fun hips => ?_
    have hstack : s.heap.stackOf id = some x.ips := by
      rw [HeapState.stackOf, Table.get?_of_mem hmem, ← hips]
      rfl
    rcases ho.bound id x.ips hstack with hl | ⟨t, ht⟩
    · rw [hnone] at hl
      cases hl
    · rw [hidle t] at ht
      cases ht

end Orderly

/-- **Counters, entries and ids while threads allocate and free**: in-use counters are
never negative and off by what is in flight, each stack has one id for ever, and with no
operation under way all counters are exact. -/
theorem accounts_of_reach (rate : ℕ) (bytesLeft : Thread → ℤ) (sizes : ℕ → Option ℕ)
    (h : Machine.Reach step allocsAndFrees (init rate bytesLeft sizes) s) :
    s.Accounts ∧ ((∀ t, s.pc t = .idle) → s.heap.Exact ∧ s.heap.Counts s.samples) := by
  have ho : s.Orderly := orderly_of_reach (Orderly.init rate bytesLeft sizes) h
  exact ⟨ho.accounts, fun hidle => ⟨ho.exact hidle, ho.counts hidle⟩⟩

/-- Two threads race to create the callsite of one stack, and one of them frees its
block. -/
def racingSamples : List (Move Bool) :=
  .alloc true 4096 1024 [7, 8] :: .alloc false 8192 512 [7, 8] :: .advance true ::
    .advance false :: advances true 10 ++ advances false 7 ++ .dealloc true 4096 :: advances true 5

theorem accounts_of_reach_racingSamples :
    ∃ s : Pool Bool, Machine.run step (init 512 (fun _ => 0) (fun _ => none)) racingSamples =
      some s ∧ s.Accounts ∧ s.heap.Exact ∧ s.heap.Counts s.samples := by
  have hall : Machine.Throughout step allocsAndFrees
      (init 512 (fun _ => 0) (fun _ => none)) racingSamples := by decide +kernel
  have hend : (Machine.run step (init 512 (fun _ => 0) (fun _ => none)) racingSamples).map
      (fun s : Pool Bool => (s.pc true, s.pc false)) = some (.idle, .idle) := by decide +kernel
  obtain ⟨s, hs, hobs⟩ := Option.map_eq_some_iff.mp hend
  rw [Prod.mk.injEq] at hobs
  have hidle : ∀ t, s.pc t = .idle := by
    intro t
    cases t with
    | true => exact hobs.1
    | false => exact hobs.2
  obtain ⟨hacc, hexact⟩ := accounts_of_reach 512 (fun _ => 0) (fun _ => none)
    (Machine.Reach.of_throughout hall hs)
  exact ⟨s, hs, hacc, hexact hidle⟩

end Pool

end Rpprof
