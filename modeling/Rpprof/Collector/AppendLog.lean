import Rpprof.Collector.TempFdArray

/-!
# The temp-file array as an append log

The buffer is flushed lazily, by the push that finds it full, and keeps its contents when it is
flushed: from `bufferIndex` on it still holds items that are in the file already.  Reading back
takes the slots below `bufferIndex` and the records counted by `flushN`, so each item is read once.

A run is a list of calls, reads and pushes in any order, with what each call returned.

## Main definitions

* `TempFdArray.callAll` — a run, with the answer to every call.
* `TempFdArray.Logs a flushed pushed` — the invariant: what is in the file and what is in the
  buffer, stale slots included.
* `TempFdArray.ReadsLog a pushed it` — what reading back is to yield.

## Main results

* `TempFdArray.Logs.push` — a push that succeeds appends to the log.
* `TempFdArray.Logs.flushN_eq` — how many buffers are in the file.
* `TempFdArray.readsLog_callAll` — **every read of a run yields what was pushed before it**, the
  buffered items first.
-/

namespace Rpprof

/-- A call of the array: a push, with the answers to the writes it may make, or a read. -/
inductive ArrayCall (T : Type*)
  /-- `push`. -/
  | push (entry : T) (writes : List WriteResult)
  /-- `try_iter`. -/
  | tryIter

/-- What a call returns. -/
inductive ArrayAnswer (T β : Type*)
  /-- The result of `push`. -/
  | pushed (result : Except IoError Unit)
  /-- The result of `try_iter`. -/
  | iterated (result : Except IoError (TempFdArrayIterator T β))

namespace ArrayCall

variable {T : Type*}

/-- The item a call pushes. -/
def entry? : ArrayCall T → Option T
  | push entry _ => some entry
  | tryIter => none

/-- The items pushed by a list of calls. -/
def pushed (calls : List (ArrayCall T)) : List T := calls.filterMap entry?

end ArrayCall

namespace TempFdArray

variable {T β : Type*} [MemImage β T] {n : ℕ}

open MemImage ArrayCall

/-! ### What a push does when it succeeds -/

section Push

variable [NeZero n]

/-- A push that succeeds stores its item, after a flush if the buffer was full. -/
theorem push_cases {a : TempFdArray T β n} {writes : List WriteResult} {entry : T}
    (hok : (a.push writes entry).2 = .ok ()) :
    (∃ h : a.bufferIndex < n, (a.push writes entry).1 = a.store entry h) ∨
    (a.bufferIndex = n ∧ (a.flushBuffer writes).2 = .ok () ∧
      (a.push writes entry).1 =
        (a.flushBuffer writes).1.store entry (a.bufferIndex_flushBuffer_lt writes)) := by
  unfold push at hok ⊢
  split at hok
  · next hfull =>
    rw [dif_pos hfull]
    cases hw : (a.flushBuffer writes).2 with
    | error e => rw [hw] at hok; cases hok
    | ok u => exact Or.inr ⟨Nat.le_antisymm a.bufferIndex_le hfull, rfl, rfl⟩
  · next hroom =>
    rw [dif_neg hroom]
    exact Or.inl ⟨Nat.lt_of_not_le hroom, rfl⟩

end Push

/-! ### The invariant -/

/-- From `bufferIndex` on, the slots hold the items flushed last, if any were. -/
def Stale (a : TempFdArray T β n) (flushed : List T) : Prop :=
  0 < a.flushN → ∃ older last, flushed = older ++ last ∧ last.length = n ∧
    a.buffer.toList.drop a.bufferIndex = last.drop a.bufferIndex

omit [MemImage β T] in
theorem Stale.store {a : TempFdArray T β n} {flushed : List T} (hstale : a.Stale flushed)
    (entry : T) (h : a.bufferIndex < n) : (a.store entry h).Stale flushed := by
  intro hflushed
  obtain ⟨older, last, happend, hlen, hdrop⟩ := hstale hflushed
  refine ⟨older, last, happend, hlen, ?_⟩
  -- one slot less is stale
  have hdrop' := congrArg (List.drop 1) hdrop
  rw [List.drop_drop, List.drop_drop] at hdrop'
  simp only [TempFdArray.store, Vector.toList_set]
  rw [List.drop_set_of_lt (Nat.lt_succ_self _)]
  exact hdrop'

theorem stale_flushBuffer (a : TempFdArray T β n) (writes : List WriteResult) (flushed : List T) :
    (a.flushBuffer writes).1.Stale (flushed ++ a.buffer.toList) :=
  fun _ => ⟨flushed, a.buffer.toList, rfl, a.buffer.length_toList, rfl⟩

/-- The array is the log of `pushed`, of which `flushed` is in the file. -/
structure Logs (a : TempFdArray T β n) (flushed pushed : List T) : Prop where
  /-- The file. -/
  holds : a.Holds flushed
  /-- The file and the buffer. -/
  append : flushed ++ a.buffered = pushed
  /-- The buffer is flushed only to make room. -/
  busy : pushed ≠ [] → 0 < a.bufferIndex
  /-- The slots out of use. -/
  stale : a.Stale flushed

theorem logs_new [Inhabited T] : (new : TempFdArray T β n).Logs [] [] where
  holds := holds_new
  append := rfl
  busy h := absurd rfl h
  stale h := absurd h (Nat.lt_irrefl 0)

omit [MemImage β T] in
theorem length_buffered (a : TempFdArray T β n) : a.buffered.length = a.bufferIndex := by
  rw [buffered, List.length_take, Vector.length_toList, Nat.min_eq_left a.bufferIndex_le]

namespace Logs

variable {a : TempFdArray T β n} {flushed pushed : List T}

theorem length_eq (h : a.Logs flushed pushed) : pushed.length = n * a.flushN + a.bufferIndex := by
  rw [← h.append, List.length_append, h.holds.length, a.length_buffered]

theorem take_pushed (h : a.Logs flushed pushed) : pushed.take (n * a.flushN) = flushed := by
  rw [← h.append, ← h.holds.length, List.take_left]

theorem drop_pushed (h : a.Logs flushed pushed) : pushed.drop (n * a.flushN) = a.buffered := by
  rw [← h.append, ← h.holds.length, List.drop_left]

/-- **A push that succeeds appends to the log.** -/
theorem push [NeZero n] (h : a.Logs flushed pushed) {writes : List WriteResult} {entry : T}
    (hok : (a.push writes entry).2 = .ok ()) :
    ∃ flushed', (a.push writes entry).1.Logs flushed' (pushed ++ [entry]) := by
  rcases push_cases hok with ⟨hroom, hpush⟩ | ⟨hfull, hwrite, hpush⟩
  · rw [hpush]
    refine ⟨flushed, ⟨h.holds.file, h.holds.length⟩, ?_, fun _ => Nat.succ_pos _,
      h.stale.store entry hroom⟩
    rw [buffered_store, ← h.append, List.append_assoc]
  · rw [hpush]
    have hholds := holds_flushBuffer h.holds hwrite
    refine ⟨flushed ++ a.buffer.toList, ⟨hholds.file, hholds.length⟩, ?_, fun _ => Nat.succ_pos _,
      (stale_flushBuffer a writes flushed).store entry _⟩
    -- the whole buffer was in use
    have hbuffered : a.buffered = a.buffer.toList := by
      rw [buffered, List.take_of_length_le (by simp [hfull])]
    have hempty : (a.flushBuffer writes).1.buffered = [] := rfl
    rw [buffered_store, hempty, ← h.append, hbuffered, List.nil_append]

/-- The buffers in the file: all that were filled, but for one that is full and not flushed yet. -/
theorem flushN_eq [NeZero n] (h : a.Logs flushed pushed) : a.flushN = (pushed.length - 1) / n := by
  have hn : 0 < n := Nat.pos_of_neZero n
  have hlen := h.length_eq
  have hle := a.bufferIndex_le
  rcases Nat.eq_zero_or_pos pushed.length with hzero | hpos
  · have hflushN : n * a.flushN = 0 := by omega
    rw [hzero, Nat.zero_sub, Nat.zero_div]
    exact (Nat.mul_eq_zero.mp hflushN).resolve_left (Nat.ne_of_gt hn)
  · have hbusy := h.busy (List.ne_nil_of_length_pos hpos)
    have hpred : pushed.length - 1 = n * a.flushN + (a.bufferIndex - 1) := by omega
    have hlt : a.bufferIndex - 1 < n := by omega
    rw [hpred, Nat.mul_add_div hn, Nat.div_eq_of_lt hlt, Nat.add_zero]

end Logs

/-! ### Reading back -/

/-- What reading back is to yield: the pushed items that are not flushed, then the flushed ones.
The slots from `bufferIndex` on make no difference to it, though items of the last buffer flushed
are still there. -/
structure ReadsLog (a : TempFdArray T β n) (pushed : List T) (it : TempFdArrayIterator T β) :
    Prop where
  /-- The items flushed are in whole buffers. -/
  length : pushed.length = n * a.flushN + a.bufferIndex
  /-- Each item once. -/
  toList : it.toList = pushed.drop (n * a.flushN) ++ pushed.take (n * a.flushN)
  /-- The slots out of use are not read. -/
  unread : ∀ buffer' : Vector T n,
    buffer'.toList.take a.bufferIndex = a.buffer.toList.take a.bufferIndex →
      ({ a with buffer := buffer' } : TempFdArray T β n).tryIter = .ok it
  /-- What they hold. -/
  stale : 0 < a.flushN → a.buffer.toList.drop a.bufferIndex =
    (pushed.take (n * a.flushN)).drop (n * (a.flushN - 1) + a.bufferIndex)

theorem Logs.readsLog {a : TempFdArray T β n} {flushed pushed : List T}
    (h : a.Logs flushed pushed) : ∃ it, a.tryIter = .ok it ∧ a.ReadsLog pushed it := by
  obtain ⟨it, hit, hlist⟩ := tryIter_of_holds h.holds
  refine ⟨it, hit, h.length_eq, ?_, fun buffer' hbuffer => ?_, fun hflushed => ?_⟩
  · rw [hlist, h.take_pushed, h.drop_pushed]
  · rw [← hit]
    simp only [tryIter, buffered, hbuffer]
  · obtain ⟨older, last, happend, hlen, hdrop⟩ := h.stale hflushed
    have holder : older.length = n * (a.flushN - 1) := by
      have hall := h.holds.length
      have hsucc : n * a.flushN = n * (a.flushN - 1) + n := by
        rw [← Nat.mul_succ, Nat.succ_eq_add_one, Nat.sub_add_cancel hflushed]
      rw [happend, List.length_append, hlen, hsucc] at hall
      exact Nat.add_right_cancel hall
    rw [h.take_pushed, happend, ← List.drop_drop, ← holder, List.drop_left]
    exact hdrop

/-! ### Runs -/

variable [NeZero n]

/-- One call. -/
def call (a : TempFdArray T β n) : ArrayCall T → TempFdArray T β n × ArrayAnswer T β
  | .push entry writes => ((a.push writes entry).1, .pushed (a.push writes entry).2)
  | .tryIter => (a, .iterated a.tryIter)

/-- A run of calls, with the answer to each of them. -/
def callAll (a : TempFdArray T β n) :
    List (ArrayCall T) → TempFdArray T β n × List (ArrayAnswer T β)
  | [] => (a, [])
  | c :: cs => ((callAll (a.call c).1 cs).1, (a.call c).2 :: (callAll (a.call c).1 cs).2)

theorem callAll_append (a : TempFdArray T β n) (before after : List (ArrayCall T)) :
    a.callAll (before ++ after) =
      (((a.callAll before).1.callAll after).1,
        (a.callAll before).2 ++ ((a.callAll before).1.callAll after).2) := by
  induction before generalizing a with
  | nil => rfl
  | cons c before ih =>
    rw [List.cons_append, callAll, ih]
    rfl

theorem length_answers (a : TempFdArray T β n) (calls : List (ArrayCall T)) :
    (a.callAll calls).2.length = calls.length := by
  induction calls generalizing a with
  | nil => rfl
  | cons c calls ih => rw [callAll, List.length_cons, List.length_cons, ih]

/-- No push of the run returned an error. -/
def PushesSucceed (a : TempFdArray T β n) (calls : List (ArrayCall T)) : Prop :=
  ∀ e, ArrayAnswer.pushed (.error e) ∉ (a.callAll calls).2

/-- Pushes succeed while every `write` makes progress. -/
theorem pushesSucceed_of_succeeds {calls : List (ArrayCall T)}
    (h : ∀ entry writes, ArrayCall.push entry writes ∈ calls → ∀ w ∈ writes, w.Succeeds) :
    ∀ a : TempFdArray T β n, a.PushesSucceed calls := by
  induction calls with
  | nil => exact fun a e hmem => absurd hmem List.not_mem_nil
  | cons c calls ih =>
    intro a e hmem
    rw [callAll, List.mem_cons] at hmem
    rcases hmem with hhead | hrest
    · cases c with
      | push entry writes =>
        have hpush : (a.push writes entry).2 = .ok () :=
          push_ok (h entry writes List.mem_cons_self) entry
        rw [call, hpush] at hhead
        cases hhead
      | tryIter => cases hhead
    · exact ih (fun entry writes hc => h entry writes (List.mem_cons_of_mem _ hc)) _ e hrest

/-- What a call keeps, a run keeps: a run whose pushes succeed is logged. -/
theorem Logs.callAll {calls : List (ArrayCall T)} :
    ∀ {a : TempFdArray T β n} {flushed pushed : List T}, a.Logs flushed pushed →
      a.PushesSucceed calls →
        ∃ flushed', (a.callAll calls).1.Logs flushed' (pushed ++ ArrayCall.pushed calls) := by
  induction calls with
  | nil =>
    intro a flushed pushed h _
    rw [ArrayCall.pushed, List.filterMap_nil, List.append_nil]
    exact ⟨flushed, h⟩
  | cons c calls ih =>
    intro a flushed pushed h hok
    have hrest : (a.call c).1.PushesSucceed calls :=
      fun e hmem => hok e (List.mem_cons_of_mem _ hmem)
    cases c with
    | push entry writes =>
      have hpush : (a.push writes entry).2 = .ok () := by
        cases hr : (a.push writes entry).2 with
        | error e =>
          refine absurd ?_ (hok e)
          rw [TempFdArray.callAll, call, hr]
          exact List.mem_cons_self
        | ok u => rfl
      obtain ⟨flushed', hlogs⟩ := h.push hpush
      have hall := ih hlogs hrest
      rw [List.append_assoc] at hall
      exact hall
    | tryIter => exact ih h hrest

/-- **Every read of a run yields what was pushed before it.**  While the pushes succeed, each
`try_iter` succeeds and yields the items pushed before it, each once: those not flushed, and then
`flushN` buffers of flushed ones. -/
theorem readsLog_callAll [Inhabited T] {calls : List (ArrayCall T)}
    (hok : (new : TempFdArray T β n).PushesSucceed calls) (before after : List (ArrayCall T))
    (hcalls : calls = before ++ .tryIter :: after) :
    ∃ it, ((new : TempFdArray T β n).callAll calls).2[before.length]? =
        some (.iterated (.ok it)) ∧
      ((new : TempFdArray T β n).callAll before).1.ReadsLog (ArrayCall.pushed before) it := by
  subst hcalls
  have hbefore : (new : TempFdArray T β n).PushesSucceed before := by
    intro e hmem
    refine hok e ?_
    rw [callAll_append]
    exact List.mem_append_left _ hmem
  obtain ⟨flushed, hlogs⟩ := logs_new.callAll hbefore
  rw [List.nil_append] at hlogs
  obtain ⟨it, hit, hreads⟩ := hlogs.readsLog
  refine ⟨it, ?_, hreads⟩
  rw [callAll_append, List.getElem?_append_right (Nat.le_of_eq (length_answers _ _)),
    length_answers, Nat.sub_self, callAll, call, hit, List.getElem?_cons_zero]

/-- Two slots and three items: the third is read before the two in the file. -/
theorem readsLog_callAll_three :
    letI : MemImage ℕ ℕ := MemImage.cell ℕ
    ∃ it : TempFdArrayIterator ℕ ℕ,
      ((new : TempFdArray ℕ ℕ 2).callAll [.push 7 [], .push 8 [], .tryIter,
        .push 9 [.interrupted, .wrote 1], .tryIter, .tryIter]).2[4]? = some (.iterated (.ok it)) ∧
      ((new : TempFdArray ℕ ℕ 2).callAll [.push 7 [], .push 8 [], .tryIter,
        .push 9 [.interrupted, .wrote 1]]).1.ReadsLog [7, 8, 9] it := by
  let : MemImage ℕ ℕ := MemImage.cell ℕ
  have hok : (new : TempFdArray ℕ ℕ 2).PushesSucceed [.push 7 [], .push 8 [], .tryIter,
      .push 9 [.interrupted, .wrote 1], .tryIter, .tryIter] := by
    refine pushesSucceed_of_succeeds (fun entry writes hmem => ?_) new
    simp only [List.mem_cons, ArrayCall.push.injEq, List.not_mem_nil, or_false,
      reduceCtorEq, false_or] at hmem
    obtain ⟨-, rfl⟩ | ⟨-, rfl⟩ | ⟨-, rfl⟩ := hmem
    · simp
    · simp
    · simp [WriteResult.Succeeds]
  exact readsLog_callAll hok [.push 7 [], .push 8 [], .tryIter,
    .push 9 [.interrupted, .wrote 1]] [.tryIter] rfl

end TempFdArray

end Rpprof
