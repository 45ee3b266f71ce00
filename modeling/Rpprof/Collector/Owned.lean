import Rpprof.Collector.AppendLog
import Rpprof.Collector.Collector

/-!
# Keys that own memory

`flush_buffer` copies the bytes of the buffered entries to the file and leaves the entries in the
buffer, so that a key with a block of the heap is there twice.  The push that takes such a slot
drops the entry in it, which frees the block: what the file has is a pointer to memory that may
hold anything by the time the collector is read.

A key is what its own bytes and its block say together (`Layout`): a number or a list of frames in
place is all in its own bytes, a string is not.  A block belongs to one key and goes with it; memory
that outlives the keys counts as their own.  The counter compares keys that are alive, by the heap
of the run; a reader finds some later memory, of which it is known only that the blocks of the
entries still held are as they were.

## Main definitions

* `Layout`, `Held` — keys in memory.
* `Collector.Intact heap mem s` — memory still has the blocks of what `s` holds.
* `Collector.Balances` — whatever memory has become otherwise, the tallies are right.
* `Collector.NothingDropped` — no push drops a key that the file points to.

## Main results

* `TempFdArray.Logs.dropped_push` — what a push drops.
* `Collector.balances_iff` — **the tallies are right exactly when nothing counted is dropped** that
  the file points to.
* `Collector.balances_of_inline` — keys that are all in their own bytes always have their tallies.
-/

namespace Rpprof

variable {K W B β : Type*} {n : ℕ}

/-! ### Keys in memory -/

/-- How keys lie in memory: a part is in the key itself, the rest in a block of the heap. -/
structure Layout (K W B : Type*) where
  /-- What the key's own bytes say. -/
  own : K → W
  /-- What its block holds. -/
  rest : K → B
  /-- What is read through the key. -/
  join : W → B → K
  /-- A key reads as itself. -/
  join_own_rest : ∀ k, join (own k) (rest k) = k

/-- The bytes of a key, which are copied when it is moved or written to the file. -/
structure Word (W : Type*) where
  /-- The part of the value that is in the key. -/
  own : W
  /-- The address of its block. -/
  addr : ℕ
  deriving DecidableEq, Repr, Inhabited

/-- The keys of a run whose heap is `heap`: no block changes while its key is alive. -/
def Held (_ : Layout K W B) (_ : ℕ → B) : Type _ := Word W

namespace Held

variable {L : Layout K W B} {heap : ℕ → B}

/-- The address of the key's block. -/
def addr (x : Held L heap) : ℕ := Word.addr x

/-- What the key reads as while memory is `mem`. -/
def read (mem : ℕ → B) (x : Held L heap) : K := L.join (Word.own x) (mem x.addr)

/-- What its block holds makes a difference to the key. -/
def Owns [BEq K] (x : Held L heap) : Prop := ∃ b, (L.join (Word.own x) b == x.read heap) = false

/-- The key whose block is at `addr`. -/
def mk (own : W) (addr : ℕ) : Held L heap := (⟨own, addr⟩ : Word W)

/-- Keys are compared by what they read as. -/
instance [BEq K] : BEq (Held L heap) := ⟨fun a b => a.read heap == b.read heap⟩

instance [BEq K] [EquivBEq K] : EquivBEq (Held L heap) where
  rfl := BEq.refl (α := K) _
  symm h := BEq.symm (α := K) h
  trans h h' := BEq.trans (α := K) h h'

/-- `T::default()`, the key of the slots never used. -/
instance [Inhabited K] : Inhabited (Held L heap) := ⟨mk (L.own default) 0⟩

/-- The bytes of an entry are those of its key and its count. -/
instance [MemImage β (Entry (Word W))] : MemImage β (Entry (Held L heap)) :=
  inferInstanceAs (MemImage β (Entry (Word W)))

end Held

/-- What is read of an entry. -/
def Entry.read {L : Layout K W B} {heap : ℕ → B} (mem : ℕ → B) (e : Entry (Held L heap)) :
    Entry K :=
  ⟨e.item.read mem, e.count⟩

theorem Entry.countOf_read [BEq K] {L : Layout K W B} {heap : ℕ → B} (mem : ℕ → B) (k : K)
    (e : Entry (Held L heap)) :
    (e.read mem).countOf k = if e.item.read mem == k then e.count else 0 :=
  rfl

/-! ### Who holds a block -/

/-- The sum of the weights of the items of the entries. -/
def weigh {T : Type*} (w : T → ℕ) (l : List (Entry T)) : ℕ := (l.map fun e => w e.item).sum

section Weigh

variable {T : Type*} (w : T → ℕ)

theorem weigh_append (l l' : List (Entry T)) : weigh w (l ++ l') = weigh w l + weigh w l' := by
  simp [weigh]

variable [BEq T]

theorem HashCounter.weigh_iter (h : HashCounter T) :
    weigh w h.iter = ∑ i, weigh w (h.buckets i).entries := by
  rw [Fin.sum_univ_def, HashCounter.iter]
  induction List.finRange Rpprof.buckets with
  | nil => rfl
  | cons i l ih => rw [List.flatMap_cons, weigh_append, ih, List.map_cons, List.sum_cons]

variable [EquivBEq T]

/-- An `add` brings in the key at most, and loses nothing but what it evicts. -/
theorem Bucket.weigh_add (b : Bucket T) (key : T) (count : ℤ) :
    weigh w (b.add key count).1.entries + weigh w (b.add key count).2.toList ≤
      weigh w b.entries + w key := by
  rcases b.add_cases key count with ⟨-, hev, hent⟩ | ⟨-, -, hev, hent⟩ | ⟨-, -, hmin, hev, hent⟩
  · -- a hit: the key that was passed is dropped
    rw [hev, hent]
    simp [weigh, Function.comp_def]
  · rw [hev, hent, weigh_append]
    simp [weigh]
  · rw [hev, hent]
    have hset := List.sum_map_set (fun e : Entry T => w e.item) b.entries _ hmin ⟨key, count⟩
    simp only [weigh, Option.toList_some, List.map_cons, List.map_nil, List.sum_cons,
      List.sum_nil] at hset ⊢
    omega

theorem HashCounter.weigh_add (hash : T → ℕ) (h : HashCounter T) (key : T) (count : ℤ) :
    weigh w (h.add hash key count).1.iter + weigh w (h.add hash key count).2.toList ≤
      weigh w h.iter + w key := by
  have hsum := Finset.sum_apply_update (fun b : Bucket T => weigh w b.entries) h.buckets
    (HashCounter.index hash key) ((h.buckets (HashCounter.index hash key)).add key count).1
  have hbucket := (h.buckets (HashCounter.index hash key)).weigh_add w key count
  simp only [HashCounter.weigh_iter, HashCounter.add] at hsum hbucket ⊢
  omega

end Weigh

/-! ### What a push drops -/

namespace TempFdArray

variable {T : Type*} [MemImage β T]

omit [MemImage β T] in
/-- The item that the next push drops, if the file has it: that of the slot to be taken, once
there has been a flush. -/
def overwritten (a : TempFdArray T β n) : Option T :=
  if n ≤ a.bufferIndex then a.buffer.toList[0]?
  else if 0 < a.flushN then a.buffer.toList[a.bufferIndex]?
  else none

/-- The items in the file whose slots have been taken since. -/
def dropped (n : ℕ) (pushed : List T) : List T := pushed.take (pushed.length - n)

namespace Logs

variable {a : TempFdArray T β n} {flushed pushed : List T}

/-- The slot to be taken has the item that was pushed a buffer ago. -/
theorem overwritten_eq [NeZero n] (h : a.Logs flushed pushed) :
    a.overwritten = if n ≤ pushed.length then pushed[pushed.length - n]? else none := by
  have hn : 0 < n := Nat.pos_of_neZero n
  have hlen := h.length_eq
  have hle := a.bufferIndex_le
  unfold overwritten
  split
  · next hfull =>
    -- the whole buffer is in use: the flush comes first
    have hbuffered : a.buffered = a.buffer.toList := by
      rw [buffered, List.take_of_length_le (by simpa using hfull)]
    have hstart : pushed.length - n = flushed.length := by
      rw [h.holds.length]
      omega
    rw [if_pos (by omega), hstart, ← h.append, hbuffered,
      List.getElem?_append_right (Nat.le_refl _), Nat.sub_self]
  · next hroom =>
    split
    · next hflushed =>
      obtain ⟨older, last, happend, hlast, hdrop⟩ := h.stale hflushed
      have holder : flushed.length = older.length + n := by
        rw [happend, List.length_append, hlast]
      have hstart : pushed.length - n = older.length + a.bufferIndex := by
        rw [hlen, ← h.holds.length]
        omega
      have hslot := congrArg (·[0]?) hdrop
      simp only [List.getElem?_drop, Nat.add_zero] at hslot
      have hle' : n ≤ pushed.length := by
        rw [hlen, ← h.holds.length]
        omega
      rw [if_pos hle', hstart, ← h.append, happend, List.append_assoc, hslot,
        List.getElem?_append_right (Nat.le_add_right _ _), Nat.add_sub_cancel_left,
        List.getElem?_append_left (by omega)]
    · next hflushed =>
      have hzero : a.flushN = 0 := by omega
      rw [hzero, Nat.mul_zero, Nat.zero_add] at hlen
      rw [if_neg (by omega)]

/-- **What a push drops** is added to what was dropped before. -/
theorem dropped_push [NeZero n] (h : a.Logs flushed pushed) (entry : T) :
    dropped n (pushed ++ [entry]) = dropped n pushed ++ a.overwritten.toList := by
  have hn : 0 < n := Nat.pos_of_neZero n
  rw [h.overwritten_eq, dropped, dropped, List.length_append, List.length_singleton]
  split
  · next hle =>
    have hsucc : pushed.length + 1 - n = pushed.length - n + 1 := by omega
    rw [hsucc, List.take_append_of_le_length (by omega), List.take_add_one]
  · next hlt =>
    have hzero : pushed.length + 1 - n = 0 := by omega
    have hzero' : pushed.length - n = 0 := by omega
    rw [hzero, hzero']
    rfl

/-- What has not been dropped is in the buffer, in use or not. -/
theorem drop_eq (h : a.Logs flushed pushed) (hpos : 0 < a.flushN) :
    pushed.drop (pushed.length - n) = a.buffer.toList.drop a.bufferIndex ++ a.buffered := by
  obtain ⟨older, last, happend, hlast, hdrop⟩ := h.stale hpos
  have hstart : pushed.length - n = older.length + a.bufferIndex := by
    have hflushed : flushed.length = older.length + n := by
      rw [happend, List.length_append, hlast]
    rw [h.length_eq, ← h.holds.length]
    omega
  rw [hstart, ← h.append, happend, List.append_assoc, ← List.drop_drop, List.drop_left,
    List.drop_append_of_le_length (by rw [hlast]; exact a.bufferIndex_le), hdrop]

theorem mem_buffer (h : a.Logs flushed pushed) {x : T} (hx : x ∈ pushed)
    (hkept : x ∉ dropped n pushed) : x ∈ a.buffer.toList := by
  rcases Nat.eq_zero_or_pos a.flushN with hzero | hpos
  · -- nothing was flushed
    have hflushed : flushed = [] := by
      rw [← List.length_eq_zero_iff, h.holds.length, hzero, Nat.mul_zero]
    rw [← h.append, hflushed, List.nil_append] at hx
    exact List.mem_of_mem_take hx
  · rw [← List.take_append_drop (pushed.length - n) pushed, List.mem_append, h.drop_eq hpos,
      List.mem_append] at hx
    exact (hx.resolve_left hkept).elim List.mem_of_mem_drop List.mem_of_mem_take

/-- Once something has been dropped, every slot has an item that has not. -/
theorem mem_drop (h : a.Logs flushed pushed) (hdropped : dropped n pushed ≠ []) {x : T}
    (hx : x ∈ a.buffer.toList) : x ∈ pushed.drop (pushed.length - n) := by
  have hpos : 0 < a.flushN := by
    by_contra hzero
    have hlen := h.length_eq
    have hle := a.bufferIndex_le
    rw [Nat.eq_zero_of_not_pos hzero, Nat.mul_zero, Nat.zero_add] at hlen
    refine hdropped ?_
    rw [dropped, hlen, Nat.sub_eq_zero_of_le hle, List.take_zero]
  rw [h.drop_eq hpos, List.mem_append, buffered]
  rw [← List.take_append_drop a.bufferIndex a.buffer.toList, List.mem_append] at hx
  exact hx.symm

end Logs

end TempFdArray

/-! ### Runs -/

namespace Collector

variable (L : Layout K W B)

/-- The heap of a run: the default key has block `0`, and the key of every call one of its own. -/
def heapOf [Inhabited K] (calls : List (AddCall K)) : ℕ → B
  | 0 => L.rest default
  | i + 1 => L.rest ((calls[i]?.map AddCall.key).getD default)

/-- The calls as they are made, the first of them with the block `addr`. -/
def place (heap : ℕ → B) : ℕ → List (AddCall K) → List (AddCall (Held L heap))
  | _, [] => []
  | addr, c :: calls =>
    ⟨Held.mk (L.own c.key) addr, c.count, c.writes⟩ :: place heap (addr + 1) calls

variable [BEq K]

/-- Memory still has the blocks of all that the collector holds: the entries of the counter and
those in the slots of the buffer, in use or not. -/
def Intact {L : Layout K W B} {heap : ℕ → B} (mem : ℕ → B)
    (s : Collector (Held L heap) β n) : Prop :=
  ∀ e ∈ s.map.iter ++ s.tempArray.buffer.toList, mem e.item.addr = heap e.item.addr

/-- The entry counts for something, and its key depends on a block. -/
def Fragile {L : Layout K W B} {heap : ℕ → B} (e : Entry (Held L heap)) : Prop :=
  e.item.Owns ∧ e.count ≠ 0

variable [EquivBEq K] [MemImage β (Entry (Word W))] [NeZero n] (hash : K → ℕ)

/-- The hash of a key that is alive. -/
def hashHeld {L : Layout K W B} (heap : ℕ → B) (x : Held L heap) : ℕ := hash (x.read heap)

/-- The collector after the calls. -/
def ranWith [Inhabited K] (n : ℕ) [NeZero n] (calls : List (AddCall K)) :
    Collector (Held L (heapOf L calls)) β n :=
  ((new : Collector (Held L (heapOf L calls)) β n).addAll (hashHeld hash (heapOf L calls))
    (place L (heapOf L calls) 1 calls)).1

/-- Whatever the memory that is no longer held has become, reading back succeeds and the counts of
every key add up to what was passed for it. -/
def Balances [Inhabited K] (n : ℕ) [NeZero n] (calls : List (AddCall K)) : Prop :=
  ∀ mem, Intact mem (ranWith L hash n calls) →
    ∃ entries, (ranWith L hash n calls).tryIter = .ok entries ∧
      ∀ k, tally k (entries.map (Entry.read mem)) = added k calls

/-- The call evicts an entry into a slot whose own entry is in the file, and depends on the block
that is freed. -/
def Drops {L : Layout K W B} {heap : ℕ → B} (s : Collector (Held L heap) β n)
    (c : AddCall (Held L heap)) : Prop :=
  (s.map.add (hashHeld hash heap) c.key c.count).2 ≠ none ∧ ∃ e ∈ s.tempArray.overwritten, Fragile e

/-- No call of the run does. -/
def NoneDropped {L : Layout K W B} {heap : ℕ → B} :
    Collector (Held L heap) β n → List (AddCall (Held L heap)) → Prop
  | _, [] => True
  | s, c :: calls =>
    ¬s.Drops hash c ∧ NoneDropped (s.add (hashHeld hash heap) c).1 calls

/-- No push of the run drops a key that the file points to. -/
def NothingDropped [Inhabited K] (n : ℕ) [NeZero n] (calls : List (AddCall K)) : Prop :=
  (new : Collector (Held L (heapOf L calls)) β n).NoneDropped hash
    (place L (heapOf L calls) 1 calls)

/-! ### Each block has one key -/

section Blocks

variable {L} {heap : ℕ → B}

/-- Whether the key has the block. -/
def hasBlock (addr : ℕ) (x : Held L heap) : ℕ := if x.addr = addr then 1 else 0

/-- The evicted entries are logged, and no two entries have the same block, nor one that is still
to be given out. -/
structure Spread (s : Collector (Held L heap) β n) (pushed : List (Entry (Held L heap)))
    (next : ℕ) : Prop where
  /-- The array is the log of the evicted entries. -/
  logs : ∃ flushed, s.tempArray.Logs flushed pushed
  /-- One key for each block. -/
  once : ∀ addr, weigh (hasBlock addr) (s.map.iter ++ pushed) ≤ 1
  /-- The blocks of later keys. -/
  fresh : ∀ addr, next ≤ addr → weigh (hasBlock addr) (s.map.iter ++ pushed) = 0

omit [EquivBEq K] [NeZero n] in
theorem spread_new [Inhabited K] (next : ℕ) :
    (new : Collector (Held L heap) β n).Spread [] next := by
  have hnil : (HashCounter.default : HashCounter (Held L heap)).iter = [] := by
    simp [HashCounter.iter, HashCounter.default, Bucket.default]
  have hzero : ∀ addr, weigh (hasBlock addr)
      ((new : Collector (Held L heap) β n).map.iter ++ []) = 0 := by
    intro addr
    rw [new, hnil]
    rfl
  exact ⟨⟨[], TempFdArray.logs_new⟩, fun addr => by rw [hzero addr]; exact Nat.zero_le 1,
    fun addr _ => hzero addr⟩

/-- An `add` whose writes succeed pushes what it evicts, and gives its key the next block. -/
theorem Spread.add {s : Collector (Held L heap) β n} {pushed : List (Entry (Held L heap))}
    {next : ℕ} (h : s.Spread pushed next) {c : AddCall (Held L heap)}
    (hc : c.key.addr = next) (hok : (s.add (hashHeld hash heap) c).2 = .ok ()) :
    (s.add (hashHeld hash heap) c).1.Spread
      (pushed ++ (s.map.add (hashHeld hash heap) c.key c.count).2.toList) (next + 1) := by
  obtain ⟨⟨flushed, hlogs⟩, honce, hfresh⟩ := h
  have hlogs' : ∃ flushed', (s.add (hashHeld hash heap) c).1.tempArray.Logs flushed'
      (pushed ++ (s.map.add (hashHeld hash heap) c.key c.count).2.toList) := by
    rcases s.add_cases (hashHeld hash heap) c with ⟨hev, -, hs⟩ | ⟨evict, hev, hr, hs⟩
    · rw [hs, hev, Option.toList_none, List.append_nil]
      exact ⟨flushed, hlogs⟩
    · rw [hr] at hok
      rw [hs, hev, Option.toList_some]
      exact hlogs.push hok
  have hmap : (s.add (hashHeld hash heap) c).1.map =
      (s.map.add (hashHeld hash heap) c.key c.count).1 := by
    rcases s.add_cases (hashHeld hash heap) c with ⟨-, -, hs⟩ | ⟨evict, -, -, hs⟩
    · rw [hs]
    · rw [hs]
  -- the new key weighs in at its own block only
  have hweigh : ∀ addr, weigh (hasBlock addr) ((s.add (hashHeld hash heap) c).1.map.iter ++
      (pushed ++ (s.map.add (hashHeld hash heap) c.key c.count).2.toList)) ≤
        weigh (hasBlock addr) (s.map.iter ++ pushed) + if next = addr then 1 else 0 := by
    intro addr
    have hadd := s.map.weigh_add (hasBlock addr) (hashHeld hash heap) c.key c.count
    rw [hasBlock, hc] at hadd
    rw [hmap, weigh_append, weigh_append, weigh_append]
    omega
  refine ⟨hlogs', fun addr => (hweigh addr).trans ?_, fun addr haddr => ?_⟩
  · split
    · next heq =>
      have hzero := hfresh addr (Nat.le_of_eq heq)
      omega
    · rw [Nat.add_zero]
      exact honce addr
  · have hle := hweigh addr
    rw [hfresh addr (by omega), if_neg (by omega)] at hle
    exact Nat.le_zero.mp hle

/-- What an `add` drops. -/
theorem dropped_add {s : Collector (Held L heap) β n} {pushed : List (Entry (Held L heap))}
    {next : ℕ} (h : s.Spread pushed next) (c : AddCall (Held L heap)) :
    (∀ e ∈ TempFdArray.dropped n
        (pushed ++ (s.map.add (hashHeld hash heap) c.key c.count).2.toList), ¬Fragile e) ↔
      (∀ e ∈ TempFdArray.dropped n pushed, ¬Fragile e) ∧ ¬s.Drops hash c := by
  obtain ⟨⟨flushed, hlogs⟩, -, -⟩ := h
  cases hev : (s.map.add (hashHeld hash heap) c.key c.count).2 with
  | none => simp [Drops, hev]
  | some evict =>
    rw [Option.toList_some, hlogs.dropped_push, List.forall_mem_append]
    simp [Drops, hev]

/-- Runs whose writes succeed. -/
theorem Spread.addAll {calls : List (AddCall K)} :
    ∀ {s : Collector (Held L heap) β n} {pushed : List (Entry (Held L heap))} {next : ℕ},
      s.Spread pushed next → (∀ c ∈ calls, ∀ w ∈ c.writes, w.Succeeds) →
      ∃ pushed', (s.addAll (hashHeld hash heap) (place L heap next calls)).1.Spread pushed'
          (next + calls.length) ∧
        ((∀ e ∈ TempFdArray.dropped n pushed', ¬Fragile e) ↔
          (∀ e ∈ TempFdArray.dropped n pushed, ¬Fragile e) ∧
            s.NoneDropped hash (place L heap next calls)) := by
  induction calls with
  | nil =>
    intro s pushed next h _
    exact ⟨pushed, h, by simp [place, NoneDropped]⟩
  | cons c calls ih =>
    intro s pushed next h hw
    rw [List.forall_mem_cons] at hw
    have hadd := h.add hash (c := ⟨Held.mk (L.own c.key) next, c.count, c.writes⟩) rfl
      (add_ok _ hw.1)
    obtain ⟨pushed', hspread, hiff⟩ := ih hadd hw.2
    refine ⟨pushed', ?_, ?_⟩
    · rw [List.length_cons, ← Nat.add_assoc, Nat.add_right_comm]
      exact hspread
    · rw [hiff, dropped_add hash h, and_assoc]
      rfl

omit [EquivBEq K] [NeZero n] in
/-- No other entry has the block of one that is held or logged. -/
theorem Spread.apart {s : Collector (Held L heap) β n} {pushed : List (Entry (Held L heap))}
    {next : ℕ} (h : s.Spread pushed next) {before after : List (Entry (Held L heap))}
    {e : Entry (Held L heap)} (hsplit : s.map.iter ++ pushed = before ++ e :: after) :
    ∀ e' ∈ before ++ after, e'.item.addr ≠ e.item.addr := by
  have honce := h.once e.item.addr
  have hself : hasBlock e.item.addr e.item = 1 := if_pos rfl
  have hcons : weigh (hasBlock e.item.addr) (e :: after) =
      1 + weigh (hasBlock e.item.addr) after := by
    rw [weigh, List.map_cons, List.sum_cons, hself, weigh]
  rw [hsplit, weigh_append, hcons] at honce
  have hzero : weigh (hasBlock e.item.addr) (before ++ after) = 0 := by
    rw [weigh_append]
    omega
  intro e' he' haddr
  have hone : hasBlock e.item.addr e'.item = 0 :=
    List.sum_eq_zero_iff_forall_eq_nat.mp hzero _ (List.mem_map_of_mem he')
  rw [hasBlock, if_pos haddr] at hone
  cases hone

end Blocks

/-! ### Reading back -/

section Read

variable {L} {heap : ℕ → B}

omit [EquivBEq K] [MemImage β (Entry (Word W))] [NeZero n] in
theorem tally_map_read (mem : ℕ → B) (k : K) (entries : List (Entry (Held L heap))) :
    tally k (entries.map (Entry.read mem)) =
      (entries.map fun e => if e.item.read mem == k then e.count else 0).sum := by
  rw [tally, List.map_map]
  rfl

omit [EquivBEq K] [MemImage β (Entry (Word W))] [NeZero n] in
/-- The calls as placed pass what the calls pass. -/
theorem sum_place (k : K) : ∀ {calls : List (AddCall K)} {next : ℕ},
    (∀ i c, calls[i]? = some c → heap (next + i) = L.rest c.key) →
    ((place L heap next calls).map fun c =>
      if c.key.read heap == k then c.count else 0).sum = added k calls := by
  intro calls
  induction calls with
  | nil => intro next _; rfl
  | cons c calls ih =>
    intro next hheap
    have hfirst : (Held.mk (L.own c.key) next : Held L heap).read heap = c.key := by
      have hblock := hheap 0 c rfl
      rw [Nat.add_zero] at hblock
      rw [Held.read, Held.addr, Held.mk, hblock, L.join_own_rest]
    have hrest := ih fun i c' hc' => by
      rw [Nat.add_assoc, Nat.add_comm 1 i]
      exact hheap (i + 1) c' hc'
    rw [place, List.map_cons, List.sum_cons, hrest, hfirst]
    simp [added]

omit [MemImage β (Entry (Word W))] [NeZero n] in
/-- What holds of the tallies of the keys that are held holds of every key. -/
theorem tally_read_of_tally {entries : List (Entry (Held L heap))}
    {placed : List (AddCall (Held L heap))} (h : ∀ x, tally x entries = added x placed) (k : K) :
    tally k (entries.map (Entry.read heap)) =
      (placed.map fun c => if c.key.read heap == k then c.count else 0).sum := by
  rw [tally_map_read]
  by_cases hk : ∃ x : Held L heap, (x.read heap == k) = true
  · obtain ⟨x, hx⟩ := hk
    have hcongr : ∀ y : Held L heap, (y == x) = (y.read heap == k) :=
      fun y => BEq.congr_right hx
    have hcount : ∀ e : Entry (Held L heap),
        e.countOf x = if e.item.read heap == k then e.count else 0 := by
      intro e
      rw [Entry.countOf, hcongr]
    have hsum := h x
    rw [tally, funext hcount, added] at hsum
    simp only [hcongr] at hsum
    exact hsum
  · -- no key reads as `k`
    have hno : ∀ y : Held L heap, (y.read heap == k) = false :=
      fun y => Bool.eq_false_iff.mpr fun hy => hk ⟨y, hy⟩
    simp [hno]

omit [EquivBEq K] [NeZero n] in
theorem tryIter_of_holds {s : Collector (Held L heap) β n} {flushed : List (Entry (Held L heap))}
    (h : s.tempArray.Holds flushed) :
    s.tryIter = .ok (s.map.iter ++ (s.tempArray.buffered ++ flushed)) := by
  obtain ⟨it, hit, hlist⟩ := TempFdArray.tryIter_of_holds h
  rw [Collector.tryIter, hit, ← hlist]

omit [NeZero n] in
/-- An entry still held, or not fragile, counts for the same keys whatever became of the rest of
the memory. -/
theorem countOf_read_eq {s : Collector (Held L heap) β n}
    {flushed pushed : List (Entry (Held L heap))} (hlogs : s.tempArray.Logs flushed pushed)
    (hdropped : ∀ e ∈ TempFdArray.dropped n pushed, ¬Fragile e) {mem : ℕ → B}
    (hmem : Intact mem s) (k : K) {e : Entry (Held L heap)} (he : e ∈ s.map.iter ++ pushed) :
    (Entry.read mem e).countOf k = (Entry.read heap e).countOf k := by
  by_cases hd : e ∈ TempFdArray.dropped n pushed
  · -- its block may hold anything
    by_cases hcount : e.count = 0
    · simp [Entry.countOf_read, hcount]
    · have hread : (e.item.read mem == e.item.read heap) = true := by
        by_contra hne
        exact hdropped e hd ⟨⟨mem e.item.addr, Bool.eq_false_iff.mpr hne⟩, hcount⟩
      simp only [Entry.countOf_read, BEq.congr_left hread]
  · have hheld : e ∈ s.map.iter ++ s.tempArray.buffer.toList := by
      rcases List.mem_append.mp he with hin | hin
      · exact List.mem_append_left _ hin
      · exact List.mem_append_right _ (hlogs.mem_buffer hin hd)
    rw [Entry.read, Entry.read, Held.read, Held.read, hmem e hheld]

omit [BEq K] [EquivBEq K] [MemImage β (Entry (Word W))] [NeZero n] in
/-- Entries whose blocks are as they were read as they did. -/
theorem map_read_congr {mem : ℕ → B} {l : List (Entry (Held L heap))}
    (h : ∀ e ∈ l, mem e.item.addr = heap e.item.addr) :
    l.map (Entry.read mem) = l.map (Entry.read heap) := by
  refine List.map_congr_left fun e he => ?_
  rw [Entry.read, Entry.read, Held.read, Held.read, h e he]

omit [EquivBEq K] [NeZero n] in
/-- Each entry is read once, the buffered ones before those in the file. -/
theorem tally_tryIter_read {s : Collector (Held L heap) β n}
    {flushed pushed entries : List (Entry (Held L heap))} (hlogs : s.tempArray.Logs flushed pushed)
    (hiter : s.tryIter = .ok entries) (mem : ℕ → B) (k : K) :
    tally k (entries.map (Entry.read mem)) =
      tally k ((s.map.iter ++ pushed).map (Entry.read mem)) := by
  rw [tryIter_of_holds hlogs.holds, Except.ok.injEq] at hiter
  rw [← hiter, ← hlogs.append]
  simp only [List.map_append, tally_append]
  rw [add_comm (tally k (flushed.map (Entry.read mem)))]

end Read

/-! ### When the tallies are right -/

omit [BEq K] [EquivBEq K] [MemImage β (Entry (Word W))] [NeZero n] in
theorem writes_place {heap : ℕ → B} {calls : List (AddCall K)}
    (hw : ∀ c ∈ calls, ∀ w ∈ c.writes, w.Succeeds) (next : ℕ) :
    ∀ c ∈ place L heap next calls, ∀ w ∈ c.writes, w.Succeeds := by
  induction calls generalizing next with
  | nil => simp [place]
  | cons c calls ih =>
    rw [List.forall_mem_cons] at hw
    rw [place, List.forall_mem_cons]
    exact ⟨hw.1, ih hw.2 (next + 1)⟩

variable [Inhabited K] {calls : List (AddCall K)}

/-- Were nothing freed, every key would have its tally. -/
theorem tally_heapOf (hw : ∀ c ∈ calls, ∀ w ∈ c.writes, w.Succeeds) :
    ∃ entries, (ranWith L hash n calls).tryIter = .ok entries ∧
      ∀ k, tally k (entries.map (Entry.read (heapOf L calls))) = added k calls := by
  obtain ⟨entries, hiter, htally⟩ :=
    tally_tryIter (T := Held L (heapOf L calls)) (n := n) (hashHeld hash (heapOf L calls)) _
      (writes_place L hw 1)
  refine ⟨entries, hiter, fun k => ?_⟩
  rw [tally_read_of_tally htally, sum_place]
  intro i c hc
  rw [Nat.add_comm, heapOf, hc, Option.map_some, Option.getD_some]

/-- What was dropped in the run, if anything. -/
theorem spread_ranWith (hw : ∀ c ∈ calls, ∀ w ∈ c.writes, w.Succeeds) :
    ∃ pushed, (ranWith L hash n calls).Spread pushed (1 + calls.length) ∧
      ((∀ e ∈ TempFdArray.dropped n pushed, ¬Fragile e) ↔
        NothingDropped L hash n calls) := by
  have hnew : (new : Collector (Held L (heapOf L calls)) β n).Spread [] 1 := spread_new 1
  obtain ⟨pushed, hspread, hiff⟩ := hnew.addAll hash hw
  have hnil : ∀ e ∈ TempFdArray.dropped n ([] : List (Entry (Held L (heapOf L calls)))),
      ¬Fragile e := by
    simp [TempFdArray.dropped]
  exact ⟨pushed, hspread, hiff.trans (and_iff_right hnil)⟩

/-- Nothing is missing when nothing counted was dropped. -/
theorem balances_of_nothingDropped (hw : ∀ c ∈ calls, ∀ w ∈ c.writes, w.Succeeds)
    (h : NothingDropped L hash n calls) : Balances L hash n calls := by
  obtain ⟨pushed, hspread, hiff⟩ := spread_ranWith (n := n) L hash hw
  obtain ⟨flushed, hlogs⟩ := hspread.logs
  obtain ⟨entries, hiter, htally⟩ := tally_heapOf (n := n) L hash hw
  intro mem hmem
  refine ⟨entries, hiter, fun k => ?_⟩
  rw [← htally k, tally_tryIter_read hlogs hiter, tally_tryIter_read hlogs hiter, tally, tally,
    List.map_map, List.map_map]
  exact congrArg List.sum
    (List.map_congr_left fun e he => countOf_read_eq hlogs (hiff.mpr h) hmem k he)

/-- A block that was freed can be made to hold something else. -/
theorem not_balances_of_fragile (hw : ∀ c ∈ calls, ∀ w ∈ c.writes, w.Succeeds)
    {pushed : List (Entry (Held L (heapOf L calls)))}
    (hspread : (ranWith L hash n calls).Spread pushed (1 + calls.length))
    {e : Entry (Held L (heapOf L calls))} (he : e ∈ TempFdArray.dropped n pushed)
    (hfragile : Fragile e) : ¬Balances L hash n calls := by
  obtain ⟨⟨b, hb⟩, hcount⟩ := hfragile
  obtain ⟨flushed, hlogs⟩ := hspread.logs
  obtain ⟨entries, hiter, htally⟩ := tally_heapOf (n := n) L hash hw
  intro hbalances
  rw [Balances] at hbalances
  generalize ranWith L hash n calls = s at *
  obtain ⟨pre, post, hpre⟩ := List.append_of_mem he
  have hsplit : s.map.iter ++ pushed =
      (s.map.iter ++ pre) ++ e :: (post ++ pushed.drop (pushed.length - n)) := by
    have happend : pushed = (pre ++ e :: post) ++ pushed.drop (pushed.length - n) := by
      rw [← hpre, TempFdArray.dropped, List.take_append_drop]
    nth_rewrite 1 [happend]
    simp only [List.append_assoc, List.cons_append]
  have hapart := hspread.apart hsplit
  set mem := Function.update (heapOf L calls) e.item.addr b with hmem
  have hother : ∀ e' ∈ (s.map.iter ++ pre) ++ (post ++ pushed.drop (pushed.length - n)),
      mem e'.item.addr = heapOf L calls e'.item.addr :=
    fun e' he' => Function.update_of_ne (hapart e' he') _ _
  have hintact : Intact mem s := by
    intro e' he'
    refine hother e' ?_
    rcases List.mem_append.mp he' with hin | hin
    · exact List.mem_append_left _ (List.mem_append_left _ hin)
    · exact List.mem_append_right _
        (List.mem_append_right _ (hlogs.mem_drop (List.ne_nil_of_mem he) hin))
  obtain ⟨entries', hiter', htally'⟩ := hbalances mem hintact
  cases hiter'.symm.trans hiter
  -- the counts of `e`'s key, with and without `e`
  have hwith := htally (e.item.read (heapOf L calls))
  have hwithout := htally' (e.item.read (heapOf L calls))
  have hself : (e.read mem).countOf (e.item.read (heapOf L calls)) = 0 := by
    rw [Entry.countOf_read, Held.read, hmem, Function.update_self, hb]
    rfl
  have hself' : (e.read (heapOf L calls)).countOf (e.item.read (heapOf L calls)) = e.count := by
    rw [Entry.countOf_read, if_pos (BEq.refl _)]
  rw [List.forall_mem_append] at hother
  rw [tally_tryIter_read hlogs hiter, hsplit, List.map_append, List.map_cons, tally_append,
    tally_cons] at hwith hwithout
  rw [map_read_congr hother.1, map_read_congr hother.2, hself] at hwithout
  rw [hself'] at hwith
  omega

/-- **The tallies are right exactly when no push drops what the file points to.**  A key that has
been written to the file is still in the buffer; once a push takes its slot, its block is freed,
and what is read of it afterwards need not be the key. -/
theorem balances_iff (calls : List (AddCall K))
    (hw : ∀ c ∈ calls, ∀ w ∈ c.writes, w.Succeeds) :
    Balances L hash n calls ↔ NothingDropped L hash n calls := by
  constructor
  · intro hbalances
    obtain ⟨pushed, hspread, hiff⟩ := spread_ranWith (n := n) L hash hw
    by_contra hdropped
    rw [← hiff] at hdropped
    simp only [not_forall, not_not, exists_prop] at hdropped
    obtain ⟨e, he, hfragile⟩ := hdropped
    exact not_balances_of_fragile L hash hw hspread he hfragile hbalances
  · exact balances_of_nothingDropped L hash hw

/-- Keys whose own bytes say everything: frames in place, numbers. -/
theorem balances_of_inline (hinline : ∀ w b b', (L.join w b == L.join w b') = true)
    (hw : ∀ c ∈ calls, ∀ w ∈ c.writes, w.Succeeds) : Balances L hash n calls := by
  refine balances_of_nothingDropped L hash hw ?_
  have hnot : ∀ {heap : ℕ → B} (x : Held L heap), ¬x.Owns := by
    rintro heap x ⟨b, hb⟩
    rw [Held.read, hinline] at hb
    cases hb
  have hall : ∀ {heap : ℕ → B} (calls : List (AddCall (Held L heap)))
      (s : Collector (Held L heap) β n), s.NoneDropped hash calls := by
    intro heap calls
    induction calls with
    | nil => exact fun s => trivial
    | cons c calls ih => exact fun s => ⟨fun ⟨_, e, _, howns, _⟩ => hnot e.item howns, ih _⟩
  exact hall _ _

/-! ### Vectors with room for one item -/

instance {heap : ℕ → B} [DecidablePred (Held.Owns : Held L heap → Prop)] :
    DecidablePred (Fragile : Entry (Held L heap) → Prop) :=
  fun e => inferInstanceAs (Decidable (e.item.Owns ∧ e.count ≠ 0))

instance {heap : ℕ → B} [DecidablePred (Held.Owns : Held L heap → Prop)]
    (s : Collector (Held L heap) β n) (c : AddCall (Held L heap)) : Decidable (s.Drops hash c) :=
  inferInstanceAs (Decidable ((s.map.add (hashHeld hash heap) c.key c.count).2 ≠ none ∧
    ∃ e ∈ s.tempArray.overwritten, Fragile e))

instance decidableNoneDropped {heap : ℕ → B} [DecidablePred (Held.Owns : Held L heap → Prop)] :
    (s : Collector (Held L heap) β n) → (calls : List (AddCall (Held L heap))) →
      Decidable (s.NoneDropped hash calls)
  | _, [] => .isTrue trivial
  | s, c :: calls =>
    have := decidableNoneDropped (s.add (hashHeld hash heap) c).1 calls
    inferInstanceAs (Decidable (¬s.Drops hash c ∧
      NoneDropped hash (s.add (hashHeld hash heap) c).1 calls))

instance {calls : List (AddCall K)}
    [DecidablePred (Held.Owns : Held L (heapOf L calls) → Prop)] :
    Decidable (NothingDropped L hash n calls) :=
  decidableNoneDropped L hash _ _

/-- Vectors of at most one item lie in their own bytes, longer ones in a block. -/
def smallVec : Layout (List ℕ) (Option (List ℕ)) (List ℕ) where
  own l := if l.length ≤ 1 then some l else none
  rest l := l
  join
    | some l, _ => l
    | none, block => block
  join_own_rest l := by by_cases h : l.length ≤ 1 <;> simp [h]

theorem owns_smallVec {heap : ℕ → List ℕ} (x : Held smallVec heap) :
    x.Owns ↔ Word.own x = none := by
  obtain ⟨own, addr⟩ := x
  cases own with
  | none =>
    -- a longer vector is another one
    refine iff_of_true ⟨0 :: heap addr, ?_⟩ rfl
    simp [Held.read, Held.addr, smallVec]
  | some l =>
    refine iff_of_false ?_ (by simp)
    rintro ⟨b, hb⟩
    simp [Held.read, smallVec] at hb

instance {heap : ℕ → List ℕ} : DecidablePred (Held.Owns : Held smallVec heap → Prop) :=
  fun x => decidable_of_iff (Word.own x = none) (owns_smallVec x).symm

/-- Twelve keys of one bucket and a buffer of seven: the eighth eviction flushes the buffer and
drops the first key evicted, which has one item.  The file has a longer one too, but that is still
in the buffer. -/
def keptCalls : List (AddCall (List ℕ)) :=
  (List.range 12).map fun i => ⟨if i = 5 then [5, 5] else [i], 1, []⟩

theorem balances_iff_keptCalls :
    letI : MemImage (Entry (Word (Option (List ℕ)))) (Entry (Word (Option (List ℕ)))) :=
      MemImage.cell _
    Balances smallVec (fun _ => 0) 7 keptCalls ∧
      (ranWith smallVec (fun _ => 0) 7 keptCalls).tempArray.flushN = 1 := by
  let _ : MemImage (Entry (Word (Option (List ℕ)))) (Entry (Word (Option (List ℕ)))) :=
    MemImage.cell _
  have hnothing : NothingDropped smallVec (fun _ => 0) 7 keptCalls := by decide +kernel
  exact ⟨(balances_iff smallVec _ keptCalls (by decide)).mpr hnothing, by decide +kernel⟩

/-- The same with vectors of two items: the block of the first key is free when it is read. -/
def droppedCalls : List (AddCall (List ℕ)) := (List.range 12).map fun i => ⟨[i, i], 1, []⟩

/-- The block that was freed has another vector by now, and the first key is not counted. -/
theorem droppedCalls_unbalanced :
    letI : MemImage (Entry (Word (Option (List ℕ)))) (Entry (Word (Option (List ℕ)))) :=
      MemImage.cell _
    ¬Balances smallVec (fun _ => 0) 7 droppedCalls := by
  let _ : MemImage (Entry (Word (Option (List ℕ)))) (Entry (Word (Option (List ℕ)))) :=
    MemImage.cell _
  -- what the key of the first call reads as afterwards
  let mem := Function.update (heapOf smallVec droppedCalls) 1 [99, 99]
  have hintact : Intact mem (ranWith smallVec (fun _ => 0) 7 droppedCalls) := by
    unfold Intact
    decide +kernel
  have hread : (ranWith smallVec (fun _ => 0) 7 droppedCalls).tryIter.map
      (fun entries => tally [0, 0] (entries.map (Entry.read mem))) = .ok 0 := by
    decide +kernel
  intro hbalances
  obtain ⟨entries, hiter, htally⟩ := hbalances mem hintact
  rw [hiter, Except.map, htally, Except.ok.injEq] at hread
  exact absurd hread (by decide)

end Collector

end Rpprof
