import Rpprof.Lib.Table
import Mathlib.Algebra.BigOperators.Ring.Finset

/-!
# The tables of the heap profiler

The state behind the allocator hooks: the sharded map from live addresses to
their callsite and size, the map from call stacks to callsite ids, the counters
kept under each id, and the next id.  Every operation here is one step of the
source, a section under one lock or one atomic update, so that a sequential
operation is their composition and a concurrent one is their interleaving.

The atomics that count are mathematical integers here: a run long enough to wrap
a 64-bit counter is out of reach.

## Main definitions

* `HeapState` — the four tables; an entry always sits in its address's own shard.
* `HeapState.insertLive`, `HeapState.removeLive`, `HeapState.insertCallsite`,
  `HeapState.bindStack`, `HeapState.updateCallsite`, … — one step each.
* `HeapState.Live`, `HeapState.liveSum` — the union of the shards, and sums over it.
* `HeapState.Agree` — the stack map and the callsite data describe each other.

## Main results

* `HeapState.liveAt_insertLive`, `HeapState.liveAt_eraseLive` — the union after a
  change of one shard.
* `HeapState.liveSum_insertLive_of_none`, `HeapState.liveSum_insertLive_of_some`,
  `HeapState.liveSum_eraseLive` — the same for sums over it.
-/

namespace Rpprof

/-- `NUM_SHARDS`. -/
def numShards : ℕ := 32

/-- `MAX_DEPTH`. -/
def maxDepth : ℕ := 128

/-- The shard an address belongs to, `(ptr >> 4) % NUM_SHARDS`. -/
def shardIdx (ptr : ℕ) : Fin numShards := ⟨(ptr >>> 4) % numShards, Nat.mod_lt _ (by decide)⟩

/-- The counters of one callsite, under the stack it was created for. -/
structure CallsiteData where
  ips : List ℕ
  allocObjects : ℕ
  allocBytes : ℕ
  inuseObjects : ℤ
  inuseBytes : ℤ
deriving DecidableEq, Repr

namespace CallsiteData

/-- The data a callsite is created with. -/
def fresh (ips : List ℕ) : CallsiteData := ⟨ips, 0, 0, 0, 0⟩

/-- `alloc_objects.fetch_add(1)`. -/
def addAllocObjects (d : CallsiteData) : CallsiteData :=
  { d with allocObjects := d.allocObjects + 1 }

/-- `alloc_bytes.fetch_add(size)`. -/
def addAllocBytes (size : ℕ) (d : CallsiteData) : CallsiteData :=
  { d with allocBytes := d.allocBytes + size }

/-- `inuse_objects.fetch_add(1)`. -/
def addInuseObjects (d : CallsiteData) : CallsiteData :=
  { d with inuseObjects := d.inuseObjects + 1 }

/-- `inuse_bytes.fetch_add(size)`. -/
def addInuseBytes (size : ℕ) (d : CallsiteData) : CallsiteData :=
  { d with inuseBytes := d.inuseBytes + size }

/-- `inuse_objects.fetch_sub(1)`. -/
def subInuseObjects (d : CallsiteData) : CallsiteData :=
  { d with inuseObjects := d.inuseObjects - 1 }

/-- `inuse_bytes.fetch_sub(size)`. -/
def subInuseBytes (size : ℕ) (d : CallsiteData) : CallsiteData :=
  { d with inuseBytes := d.inuseBytes - size }

/-- The four additions of a sample. -/
def sampled (size : ℕ) (d : CallsiteData) : CallsiteData :=
  (((d.addAllocObjects).addAllocBytes size).addInuseObjects).addInuseBytes size

/-- The two subtractions of a free. -/
def freed (size : ℕ) (d : CallsiteData) : CallsiteData :=
  (d.subInuseObjects).subInuseBytes size

@[simp] theorem ips_sampled (size : ℕ) (d : CallsiteData) : (d.sampled size).ips = d.ips := rfl

@[simp] theorem ips_freed (size : ℕ) (d : CallsiteData) : (d.freed size).ips = d.ips := rfl

@[simp] theorem allocObjects_sampled (size : ℕ) (d : CallsiteData) :
    (d.sampled size).allocObjects = d.allocObjects + 1 := rfl

@[simp] theorem allocBytes_sampled (size : ℕ) (d : CallsiteData) :
    (d.sampled size).allocBytes = d.allocBytes + size := rfl

@[simp] theorem inuseObjects_sampled (size : ℕ) (d : CallsiteData) :
    (d.sampled size).inuseObjects = d.inuseObjects + 1 := rfl

@[simp] theorem inuseBytes_sampled (size : ℕ) (d : CallsiteData) :
    (d.sampled size).inuseBytes = d.inuseBytes + size := rfl

@[simp] theorem allocObjects_freed (size : ℕ) (d : CallsiteData) :
    (d.freed size).allocObjects = d.allocObjects := rfl

@[simp] theorem allocBytes_freed (size : ℕ) (d : CallsiteData) :
    (d.freed size).allocBytes = d.allocBytes := rfl

@[simp] theorem inuseObjects_freed (size : ℕ) (d : CallsiteData) :
    (d.freed size).inuseObjects = d.inuseObjects - 1 := rfl

@[simp] theorem inuseBytes_freed (size : ℕ) (d : CallsiteData) :
    (d.freed size).inuseBytes = d.inuseBytes - size := rfl

end CallsiteData

/-- The shards, the stack map, the callsite data and the id counter. -/
@[ext] structure HeapState where
  /-- `live` of each shard: address to callsite id and size. -/
  shards : Fin numShards → Table ℕ (ℕ × ℕ)
  callsiteMap : Table (List ℕ) ℕ
  callsites : Table ℕ CallsiteData
  nextCallsiteId : ℕ
  /-- An address is only ever recorded in its own shard. -/
  placed : ∀ i p v, (shards i).get? p = some v → shardIdx p = i

namespace HeapState

/-- A shard is replaced by a table of addresses of its own. -/
theorem placed_update {shards : Fin numShards → Table ℕ (ℕ × ℕ)}
    (placed : ∀ i p v, (shards i).get? p = some v → shardIdx p = i) {i : Fin numShards}
    {t : Table ℕ (ℕ × ℕ)} (ht : ∀ p v, t.get? p = some v → shardIdx p = i)
    (j : Fin numShards) (p : ℕ) (v : ℕ × ℕ)
    (hp : (Function.update shards i t j).get? p = some v) : shardIdx p = j := by
  by_cases hj : j = i
  · subst hj
    rw [Function.update_self] at hp
    exact ht p v hp
  · rw [Function.update_of_ne hj] at hp
    exact placed j p v hp

/-- `HeapState::new`. -/
def new : HeapState where
  shards := fun _ => Table.empty
  callsiteMap := Table.empty
  callsites := Table.empty
  nextCallsiteId := 1
  placed := by intro i p v h; cases h

/-! ### One section each -/

/-- The read-locked lookup of a stack. -/
def lookup (h : HeapState) (ips : List ℕ) : Option ℕ := h.callsiteMap.get? ips

/-- `next_callsite_id.fetch_add(1)`: the id drawn, and the state after it. -/
def drawId (h : HeapState) : ℕ × HeapState :=
  (h.nextCallsiteId, { h with nextCallsiteId := h.nextCallsiteId + 1 })

/-- The write-locked insert of a new callsite's data. -/
def insertCallsite (h : HeapState) (id : ℕ) (ips : List ℕ) : HeapState :=
  { h with callsites := h.callsites.insert id (CallsiteData.fresh ips) }

/-- The vacant entry of the stack map takes the new id. -/
def bindStack (h : HeapState) (ips : List ℕ) (id : ℕ) : HeapState :=
  { h with callsiteMap := h.callsiteMap.insert ips id }

/-- A counter update, if the id has data. -/
def updateCallsite (h : HeapState) (id : ℕ) (f : CallsiteData → CallsiteData) : HeapState :=
  { h with callsites := h.callsites.modify id f }

theorem callsites_updateCallsite (h : HeapState) (id : ℕ) (f : CallsiteData → CallsiteData)
    (a : ℕ) : (h.updateCallsite id f).callsites.get? a =
      if id = a then (h.callsites.get? a).map f else h.callsites.get? a := by
  show (h.callsites.modify id f).get? a = _
  rw [Table.get?_modify]
  simp only [beq_iff_eq]

/-- The entry of an address in its shard. -/
def liveAt (h : HeapState) (ptr : ℕ) : Option (ℕ × ℕ) := (h.shards (shardIdx ptr)).get? ptr

/-- `shard.live.insert`. -/
def insertLive (h : HeapState) (ptr id size : ℕ) : HeapState where
  shards := Function.update h.shards (shardIdx ptr)
    ((h.shards (shardIdx ptr)).insert ptr (id, size))
  callsiteMap := h.callsiteMap
  callsites := h.callsites
  nextCallsiteId := h.nextCallsiteId
  placed := by
    apply placed_update h.placed
    intro p v hp
    rw [Table.get?_insert] at hp
    split at hp
    · next hptr => rw [beq_iff_eq.mp hptr]
    · exact h.placed _ p v hp

/-- `shard.live.remove`, without its result. -/
def eraseLive (h : HeapState) (ptr : ℕ) : HeapState where
  shards := Function.update h.shards (shardIdx ptr) ((h.shards (shardIdx ptr)).erase ptr)
  callsiteMap := h.callsiteMap
  callsites := h.callsites
  nextCallsiteId := h.nextCallsiteId
  placed := by
    apply placed_update h.placed
    intro p v hp
    rw [Table.get?_erase] at hp
    split at hp
    · cases hp
    · exact h.placed _ p v hp

/-- `shard.live.remove`: the entry removed, if there was one. -/
def removeLive (h : HeapState) (ptr : ℕ) : Option (ℕ × ℕ) × HeapState :=
  (h.liveAt ptr, h.eraseLive ptr)

/-- `s.live.clear()` for one shard. -/
def clearShard (h : HeapState) (i : Fin numShards) : HeapState where
  shards := Function.update h.shards i Table.empty
  callsiteMap := h.callsiteMap
  callsites := h.callsites
  nextCallsiteId := h.nextCallsiteId
  placed := by
    apply placed_update h.placed
    intro p v hp
    cases hp

/-- `map.clear()`. -/
def clearMap (h : HeapState) : HeapState := { h with callsiteMap := Table.empty }

/-- `callsites.clear()`. -/
def clearCallsites (h : HeapState) : HeapState := { h with callsites := Table.empty }

/-- `next_callsite_id.store(1)`. -/
def storeNextId (h : HeapState) : HeapState := { h with nextCallsiteId := 1 }

/-! ### The union of the shards -/

/-- Some shard has the entry `v` for the address `p`. -/
def Live (h : HeapState) (p : ℕ) (v : ℕ × ℕ) : Prop := ∃ i, (h.shards i).get? p = some v

/-- The sum of `f` over the entries of all shards. -/
def liveSum (h : HeapState) (f : ℕ × ℕ → ℕ) : ℕ := ∑ i, (h.shards i).valueSum f

/-- One for an entry of the callsite, nothing for another. -/
def objectsOf (id : ℕ) (v : ℕ × ℕ) : ℕ := if v.1 = id then 1 else 0

/-- The recorded size of an entry of the callsite, nothing for another. -/
def bytesOf (id : ℕ) (v : ℕ × ℕ) : ℕ := if v.1 = id then v.2 else 0

/-- The number of live entries of a callsite. -/
def liveObjects (h : HeapState) (id : ℕ) : ℕ := h.liveSum (objectsOf id)

/-- The total recorded size of the live entries of a callsite. -/
def liveBytes (h : HeapState) (id : ℕ) : ℕ := h.liveSum (bytesOf id)

theorem live_iff (h : HeapState) (p : ℕ) (v : ℕ × ℕ) : h.Live p v ↔ h.liveAt p = some v := by
  constructor
  · rintro ⟨i, hi⟩
    rw [liveAt, h.placed i p v hi]
    exact hi
  · exact fun hp => ⟨_, hp⟩

theorem liveAt_insertLive (h : HeapState) (ptr id size p : ℕ) :
    (h.insertLive ptr id size).liveAt p = if ptr = p then some (id, size) else h.liveAt p := by
  simp only [liveAt, insertLive]
  by_cases hs : shardIdx p = shardIdx ptr
  · rw [hs, Function.update_self, Table.get?_insert]
    simp only [beq_iff_eq]
  · have hp : ptr ≠ p := fun hp => hs (by rw [hp])
    rw [Function.update_of_ne hs, if_neg hp]

theorem liveAt_eraseLive (h : HeapState) (ptr p : ℕ) :
    (h.eraseLive ptr).liveAt p = if ptr = p then none else h.liveAt p := by
  simp only [liveAt, eraseLive]
  by_cases hs : shardIdx p = shardIdx ptr
  · rw [hs, Function.update_self, Table.get?_erase]
    simp only [beq_iff_eq]
  · have hp : ptr ≠ p := fun hp => hs (by rw [hp])
    rw [Function.update_of_ne hs, if_neg hp]

theorem eraseLive_of_none {h : HeapState} {ptr : ℕ} (hp : h.liveAt ptr = none) :
    h.eraseLive ptr = h := by
  have hshard : (h.shards (shardIdx ptr)).erase ptr = h.shards (shardIdx ptr) :=
    Table.erase_of_none hp
  have hshards : (h.eraseLive ptr).shards = h.shards := by
    simp only [eraseLive, hshard, Function.update_eq_self]
  exact HeapState.ext hshards rfl rfl rfl

/-- An insert at a free address adds its entry to a sum. -/
theorem liveSum_insertLive_of_none {h : HeapState} {ptr : ℕ} (hp : h.liveAt ptr = none)
    (id size : ℕ) (f : ℕ × ℕ → ℕ) :
    (h.insertLive ptr id size).liveSum f = h.liveSum f + f (id, size) := by
  have hsum := Finset.sum_apply_update (Table.valueSum f) h.shards (shardIdx ptr)
    ((h.shards (shardIdx ptr)).insert ptr (id, size))
  have hins : ((h.shards (shardIdx ptr)).insert ptr (id, size)).valueSum f =
      f (id, size) + (h.shards (shardIdx ptr)).valueSum f := Table.valueSum_insert_of_none f hp _
  simp only [liveSum, insertLive]
  omega

/-- An insert over an old entry trades it for the new one in a sum. -/
theorem liveSum_insertLive_of_some {h : HeapState} {ptr : ℕ} {v : ℕ × ℕ}
    (hp : h.liveAt ptr = some v) (id size : ℕ) (f : ℕ × ℕ → ℕ) :
    (h.insertLive ptr id size).liveSum f + f v = h.liveSum f + f (id, size) := by
  have hsum := Finset.sum_apply_update (Table.valueSum f) h.shards (shardIdx ptr)
    ((h.shards (shardIdx ptr)).insert ptr (id, size))
  have hins : ((h.shards (shardIdx ptr)).insert ptr (id, size)).valueSum f + f v =
      (h.shards (shardIdx ptr)).valueSum f + f (id, size) := Table.valueSum_insert_of_some f hp _
  simp only [liveSum, insertLive]
  omega

/-- A removal takes its entry off a sum. -/
theorem liveSum_eraseLive {h : HeapState} {ptr : ℕ} {v : ℕ × ℕ} (hp : h.liveAt ptr = some v)
    (f : ℕ × ℕ → ℕ) : (h.eraseLive ptr).liveSum f + f v = h.liveSum f := by
  have hsum := Finset.sum_apply_update (Table.valueSum f) h.shards (shardIdx ptr)
    ((h.shards (shardIdx ptr)).erase ptr)
  have hera : ((h.shards (shardIdx ptr)).erase ptr).valueSum f + f v =
      (h.shards (shardIdx ptr)).valueSum f := Table.valueSum_erase f hp
  simp only [liveSum, eraseLive]
  omega

/-- No entry of a callsite, nothing to sum. -/
theorem liveSum_eq_zero {h : HeapState} {f : ℕ × ℕ → ℕ}
    (hf : ∀ p v, h.liveAt p = some v → f v = 0) : h.liveSum f = 0 := by
  refine Finset.sum_eq_zero fun i _ => List.sum_eq_zero fun x hx => ?_
  obtain ⟨⟨p, v⟩, hmem, rfl⟩ := List.mem_map.mp hx
  exact hf p v ((h.live_iff p v).mp ⟨i, Table.get?_of_mem hmem⟩)

/-! ### The stack map and the callsite data -/

/-- The stack map and the callsite data describe each other: a bound stack's id has
data carrying that stack, data are of a bound stack, and every id in use was drawn. -/
structure Agree (h : HeapState) : Prop where
  /-- A bound stack has its data. -/
  data : ∀ ips id, h.lookup ips = some id → ∃ d, h.callsites.get? id = some d ∧ d.ips = ips
  /-- Data belong to the stack they carry. -/
  bound : ∀ id d, h.callsites.get? id = some d → h.lookup d.ips = some id
  /-- Ids are drawn in order. -/
  below : ∀ id d, h.callsites.get? id = some d → id < h.nextCallsiteId

namespace Agree

variable {h : HeapState}

/-- Two stacks never share an id. -/
theorem injective (ha : h.Agree) {a b : List ℕ} {id : ℕ} (hx : h.lookup a = some id)
    (hy : h.lookup b = some id) : a = b := by
  obtain ⟨d, hd, rfl⟩ := ha.data a id hx
  obtain ⟨d', hd', rfl⟩ := ha.data b id hy
  rw [hd, Option.some.injEq] at hd'
  rw [hd']

/-- The next id has no data yet. -/
theorem next_free (ha : h.Agree) : h.callsites.get? h.nextCallsiteId = none := by
  cases hn : h.callsites.get? h.nextCallsiteId with
  | none => rfl
  | some d => exact absurd (ha.below _ d hn) (lt_irrefl _)

theorem new : HeapState.new.Agree := by
  constructor
  · intro ips id hl; cases hl
  · intro id d hd; cases hd
  · intro id d hd; cases hd

end Agree

end HeapState

end Rpprof
