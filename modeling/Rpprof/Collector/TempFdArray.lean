import Mathlib.Algebra.NeZero
import Mathlib.Data.List.Basic
import Mathlib.Tactic.NthRewrite
import Mathlib.Algebra.GroupWithZero.Nat

/-!
# The temp-file array

The second level of the collector: a buffer of fixed length in front of a
temporary file.  A push into a full buffer first writes the memory image of the
whole buffer to the end of the file, and reading back reinterprets the first
`bufferLength * flushN` records of the file.

A value's memory image is a parameter (`MemImage`): a fixed number of bytes from
which the value is read back.  The items here are those that are in their own bytes; the bytes of
others are read back as bytes (`Rpprof.Collector.Owned`).  The file is a list of bytes, so a write
that stops half-way can stop inside a record.

## Main definitions

* `writeAll` — the standard library's loop over `write`, against a script of what
  the operating system answers.
* `TempFdArray.flushBuffer`, `TempFdArray.push`, `TempFdArray.tryIter` — the code.
* `TempFdArrayIterator.next` — the two-phase iterator, run to its end by `toList`.
* `TempFdArray.Holds a flushed` — the file is the image of `flushed`, buffer by buffer.

## Main results

* `TempFdArray.holds_push`, `TempFdArray.tryIter_of_holds` — while writes succeed the
  array is the log of what was pushed.
* `TempFdArray.Short.push`, `TempFdArray.tryIter_of_short` — once the file is short of
  the records counted it stays so, and no read succeeds.
-/

namespace Rpprof

/-- The errors of the file operations. -/
inductive IoError
  /-- An error the operating system reports. -/
  | os
  /-- `write_all` was told that nothing was written. -/
  | writeZero
  /-- `read_exact` met the end of the file. -/
  | unexpectedEof
  deriving DecidableEq, Repr

/-! ### Writing -/

/-- What one `write` call answers. -/
inductive WriteResult
  /-- The first `n` bytes were taken. -/
  | wrote (n : ℕ)
  /-- `EINTR`: nothing was taken, the call is made again. -/
  | interrupted
  /-- Any other error. -/
  | failed
  deriving DecidableEq, Repr

/-- The call makes progress or is made again. -/
def WriteResult.Succeeds : WriteResult → Prop
  | .wrote n => 0 < n
  | .interrupted => True
  | .failed => False

instance : DecidablePred WriteResult.Succeeds
  | .wrote n => inferInstanceAs (Decidable (0 < n))
  | .interrupted => inferInstanceAs (Decidable True)
  | .failed => inferInstanceAs (Decidable False)

variable {β : Type*}

/-- `Write::write_all`: call `write` until everything is taken.  The script says what
the successive calls answer; a call past its end takes all that is left.  Returns the
bytes that reached the file. -/
def writeAll : List WriteResult → List β → List β × Except IoError Unit
  | _, [] => ([], .ok ())
  | [], buf => (buf, .ok ())
  | .interrupted :: os, buf => writeAll os buf
  | .failed :: _, _ => ([], .error .os)
  | .wrote 0 :: _, _ => ([], .error .writeZero)
  | .wrote (n + 1) :: os, buf =>
    let r := writeAll os (buf.drop (n + 1))
    (buf.take (n + 1) ++ r.1, r.2)

@[simp] theorem writeAll_nil (os : List WriteResult) :
    writeAll os ([] : List β) = ([], .ok ()) := by
  cases os <;> rfl

/-- When `write_all` returns `Ok`, the whole buffer was written. -/
theorem fst_writeAll_of_ok : ∀ (os : List WriteResult) (buf : List β),
    (writeAll os buf).2 = .ok () → (writeAll os buf).1 = buf := by
  intro os
  induction os with
  | nil => intro buf _; cases buf <;> rfl
  | cons w os ih =>
    intro buf h
    cases buf with
    | nil => rfl
    | cons b buf =>
      cases w with
      | interrupted => exact ih _ h
      | failed => cases h
      | wrote n =>
        cases n with
        | zero => cases h
        | succ n =>
          simp only [writeAll] at h ⊢
          rw [ih _ h, List.take_append_drop]

/-- When `write_all` returns an error, something of the buffer was not written. -/
theorem length_writeAll_of_error : ∀ (os : List WriteResult) (buf : List β) {e : IoError},
    (writeAll os buf).2 = .error e → (writeAll os buf).1.length < buf.length := by
  intro os
  induction os with
  | nil => intro buf e h; cases buf <;> cases h
  | cons w os ih =>
    intro buf e h
    cases buf with
    | nil => cases h
    | cons b buf =>
      cases w with
      | interrupted => exact ih _ h
      | failed => simp [writeAll]
      | wrote n =>
        cases n with
        | zero => simp [writeAll]
        | succ n =>
          -- the error is that of the rest of the buffer
          simp only [writeAll, List.length_append] at h ⊢
          have hrest := ih _ h
          rw [List.length_drop] at hrest
          rw [List.length_take]
          omega

/-- A script of calls that all make progress writes everything. -/
theorem writeAll_of_succeeds : ∀ (os : List WriteResult) (buf : List β),
    (∀ w ∈ os, w.Succeeds) → (writeAll os buf).2 = .ok () := by
  intro os
  induction os with
  | nil => intro buf _; cases buf <;> rfl
  | cons w os ih =>
    intro buf h
    have ih' := fun b => ih b fun w hw => h w (List.mem_cons_of_mem _ hw)
    cases buf with
    | nil => rfl
    | cons b buf =>
      cases w with
      | interrupted => exact ih' _
      | failed => exact (h _ List.mem_cons_self).elim
      | wrote n =>
        cases n with
        | zero => exact absurd (h _ List.mem_cons_self) (Nat.lt_irrefl 0)
        | succ n => exact ih' _

/-! ### Memory images -/

/-- How values lie in memory: a fixed positive number of bytes, from which the value
is read back. -/
class MemImage (β : outParam (Type*)) (T : Type*) where
  /-- `size_of::<T>()`. -/
  size : ℕ
  /-- There are no zero-sized records. -/
  size_pos : 0 < size
  /-- The bytes of a value. -/
  toBytes : T → List β
  /-- There are `size` of them. -/
  length_toBytes : ∀ x, (toBytes x).length = size
  /-- What bytes are read as. -/
  ofBytes : List β → T
  /-- A value's own bytes are read as the value. -/
  ofBytes_toBytes : ∀ x, ofBytes (toBytes x) = x

/-- The symbolic image: one cell of memory that holds the value. -/
@[reducible] def MemImage.cell (T : Type*) [Inhabited T] : MemImage T T where
  size := 1
  size_pos := Nat.one_pos
  toBytes x := [x]
  length_toBytes _ := rfl
  ofBytes l := l.headD default
  ofBytes_toBytes _ := rfl

section Image

variable {T : Type*} [MemImage β T]

open MemImage

/-- The bytes of a slice. -/
def image (l : List T) : List β := l.flatMap toBytes

/-- `slice::from_raw_parts` over bytes: as many records as there is room for. -/
def records (bytes : List β) : List T :=
  (List.range (bytes.length / size T)).map fun i =>
    ofBytes ((bytes.drop (i * size T)).take (size T))

@[simp] theorem image_append (l l' : List T) : image (l ++ l') = image l ++ image l' :=
  List.flatMap_append

theorem length_image (l : List T) : (image l).length = l.length * size T := by
  induction l with
  | nil => simp [image]
  | cons x l ih =>
    rw [image, List.flatMap_cons, List.length_append, length_toBytes, ← image, ih,
      List.length_cons, Nat.succ_mul, Nat.add_comm]

theorem drop_image (l : List T) (i : ℕ) : (image l).drop (i * size T) = image (l.drop i) := by
  induction l generalizing i with
  | nil => simp [image]
  | cons x l ih =>
    cases i with
    | zero => simp
    | succ i =>
      rw [List.drop_succ_cons, ← ih i, image, List.flatMap_cons, ← image]
      have hlen : (i + 1) * size T = (toBytes x).length + i * size T := by
        rw [length_toBytes, Nat.succ_mul, Nat.add_comm]
      rw [hlen, ← List.drop_drop, List.drop_left]

/-- Reading a slice's own bytes gives the slice back. -/
theorem records_image (l : List T) : records (image l) = l := by
  have hdiv : (image l).length / size T = l.length := by
    rw [length_image, Nat.mul_div_cancel _ size_pos]
  refine List.ext_getElem (by simp [records, hdiv]) fun i hi hi' => ?_
  simp only [records, List.getElem_map, List.getElem_range]
  rw [drop_image, List.drop_eq_getElem_cons hi', image, List.flatMap_cons,
    List.take_left' (length_toBytes _), ofBytes_toBytes]

end Image

/-! ### The iterator -/

/-- `TempFdArrayIterator`: the buffered items, then the bytes read from the file. -/
structure TempFdArrayIterator (T β : Type*) where
  /-- `&buffer[0..buffer_index]`. -/
  buffer : List T
  /-- The bytes of the file. -/
  fileVec : List β
  /-- One index over both phases. -/
  index : ℕ

namespace TempFdArrayIterator

variable {T : Type*} [MemImage β T]

/-- `Iterator::next`: first the buffer, then the records of the file. -/
def next (it : TempFdArrayIterator T β) : Option (T × TempFdArrayIterator T β) :=
  if h : it.index < it.buffer.length then
    some (it.buffer[it.index], { it with index := it.index + 1 })
  else
    let ts : List T := records it.fileVec
    if h' : it.index - it.buffer.length < ts.length then
      some (ts[it.index - it.buffer.length], { it with index := it.index + 1 })
    else none

/-- Call `next` at most `fuel` times. -/
def collect : ℕ → TempFdArrayIterator T β → List T
  | 0, _ => []
  | fuel + 1, it =>
    match it.next with
    | none => []
    | some (x, it') => x :: collect fuel it'

/-- Run the iterator to its end. -/
def toList (it : TempFdArrayIterator T β) : List T :=
  collect (it.buffer.length + (records it.fileVec : List T).length) it

theorem next_eq (it : TempFdArrayIterator T β) :
    it.next = (it.buffer ++ records it.fileVec)[it.index]?.map fun x =>
      (x, { it with index := it.index + 1 }) := by
  unfold next
  split
  · next h => rw [List.getElem?_append_left h, List.getElem?_eq_getElem h, Option.map_some]
  · next h =>
    rw [List.getElem?_append_right (by omega)]
    simp only
    split
    · next h' => rw [List.getElem?_eq_getElem h', Option.map_some]
    · next h' => rw [List.getElem?_eq_none (by omega), Option.map_none]

theorem collect_eq : ∀ (fuel : ℕ) (it : TempFdArrayIterator T β),
    it.buffer.length + (records it.fileVec : List T).length ≤ it.index + fuel →
      collect fuel it = (it.buffer ++ records it.fileVec).drop it.index := by
  intro fuel
  induction fuel with
  | zero =>
    intro it h
    rw [collect, List.drop_eq_nil_of_le (by rw [List.length_append]; omega)]
  | succ fuel ih =>
    intro it h
    rw [collect, next_eq]
    rcases Nat.lt_or_ge it.index (it.buffer ++ records it.fileVec).length with hlt | hge
    · -- one item, then those of the iterator after it
      rw [List.getElem?_eq_getElem hlt, Option.map_some, List.drop_eq_getElem_cons hlt]
      have hrest := ih { it with index := it.index + 1 } (by simp only; omega)
      simp only at hrest ⊢
      rw [hrest]
    · rw [List.getElem?_eq_none hge, Option.map_none, List.drop_eq_nil_of_le hge]

/-- A fresh iterator yields the buffered items and then those of the file. -/
theorem toList_eq (buffer : List T) (fileVec : List β) :
    toList ⟨buffer, fileVec, 0⟩ = buffer ++ records fileVec := by
  rw [toList, collect_eq _ _ (by simp), List.drop_zero]

end TempFdArrayIterator

/-! ### The array -/

/-- `TempFdArray`, with `BUFFER_LENGTH` as the parameter `n`. -/
structure TempFdArray (T β : Type*) (n : ℕ) where
  /-- The contents of the temp file. -/
  file : List β
  /-- `[T; BUFFER_LENGTH]`; slots from `bufferIndex` on hold stale items. -/
  buffer : Vector T n
  /-- The next free slot. -/
  bufferIndex : ℕ
  /-- How many buffers were flushed. -/
  flushN : ℕ
  /-- The index stays within the buffer. -/
  bufferIndex_le : bufferIndex ≤ n

namespace TempFdArray

variable {T : Type*} {n : ℕ}

/-- `TempFdArray::new`: an empty file and a buffer of defaults. -/
def new [Inhabited T] : TempFdArray T β n :=
  ⟨[], Vector.replicate n default, 0, 0, Nat.zero_le n⟩

/-- The items in use in the buffer: `&buffer[0..buffer_index]`. -/
def buffered (a : TempFdArray T β n) : List T := a.buffer.toList.take a.bufferIndex

/-- The last lines of `push`: `buffer[buffer_index] = entry; buffer_index += 1`. -/
def store (a : TempFdArray T β n) (entry : T) (h : a.bufferIndex < n) : TempFdArray T β n :=
  { a with
    buffer := a.buffer.set a.bufferIndex entry
    bufferIndex := a.bufferIndex + 1
    bufferIndex_le := h }

variable [MemImage β T]

open MemImage

/-- `flush_buffer`: the counters move before the write, which may fail. -/
def flushBuffer (writes : List WriteResult) (a : TempFdArray T β n) :
    TempFdArray T β n × Except IoError Unit :=
  let w := writeAll writes (image a.buffer.toList)
  ({ a with
      bufferIndex := 0
      flushN := a.flushN + 1
      file := a.file ++ w.1
      bufferIndex_le := Nat.zero_le n }, w.2)

/-- There is room after a flush. -/
theorem bufferIndex_flushBuffer_lt [NeZero n] (a : TempFdArray T β n) (writes : List WriteResult) :
    (a.flushBuffer writes).1.bufferIndex < n :=
  Nat.pos_of_neZero n

/-- `push`: flush a full buffer, then store. -/
def push [NeZero n] (writes : List WriteResult) (a : TempFdArray T β n) (entry : T) :
    TempFdArray T β n × Except IoError Unit :=
  if h : n ≤ a.bufferIndex then
    -- an error returns before the store: the entry is dropped
    match (a.flushBuffer writes).2 with
    | .error e => ((a.flushBuffer writes).1, .error e)
    | .ok () => ((a.flushBuffer writes).1.store entry (a.bufferIndex_flushBuffer_lt writes), .ok ())
  else (a.store entry (by omega), .ok ())

/-- `try_iter`: read exactly the bytes of the flushed buffers, then iterate. -/
def tryIter (a : TempFdArray T β n) : Except IoError (TempFdArrayIterator T β) :=
  let bytes := n * a.flushN * size T
  -- `read_exact`
  if a.file.length < bytes then .error .unexpectedEof
  else .ok ⟨a.buffered, a.file.take bytes, 0⟩

/-! ### While writes succeed: an append log -/

/-- The file is the image of the items `flushed`, in whole buffers. -/
structure Holds (a : TempFdArray T β n) (flushed : List T) : Prop where
  /-- The bytes of the file. -/
  file : a.file = image flushed
  /-- The number of records is the number counted. -/
  length : flushed.length = n * a.flushN

omit [MemImage β T] in
theorem buffered_store (a : TempFdArray T β n) (entry : T) (h : a.bufferIndex < n) :
    (a.store entry h).buffered = a.buffered ++ [entry] := by
  have hlen : a.bufferIndex < a.buffer.toList.length := by simpa using h
  simp only [buffered, store, Vector.toList_set]
  rw [List.take_succ_eq_append_getElem (by simpa using h), List.take_set_of_le (Nat.le_refl _),
    List.getElem_set_self]

theorem holds_new [Inhabited T] : (new : TempFdArray T β n).Holds [] := ⟨rfl, rfl⟩

/-- A flush whose write succeeds moves the buffer to the file. -/
theorem holds_flushBuffer {a : TempFdArray T β n} {flushed : List T} (h : a.Holds flushed)
    {writes : List WriteResult} (hok : (a.flushBuffer writes).2 = .ok ()) :
    (a.flushBuffer writes).1.Holds (flushed ++ a.buffer.toList) where
  file := by
    have hall := fst_writeAll_of_ok writes (image a.buffer.toList) hok
    simp only [flushBuffer, image_append, hall, h.file]
  length := by
    simp only [flushBuffer, List.length_append, h.length, Vector.length_toList]
    rw [Nat.mul_succ]

/-- **A push whose write succeeds appends to the log**: flushed items followed by
buffered ones, in the order they were pushed. -/
theorem holds_push [NeZero n] {a : TempFdArray T β n} {flushed : List T} (h : a.Holds flushed)
    {writes : List WriteResult} {entry : T} (hok : (a.push writes entry).2 = .ok ()) :
    ∃ flushed', (a.push writes entry).1.Holds flushed' ∧
      flushed' ++ (a.push writes entry).1.buffered = flushed ++ a.buffered ++ [entry] := by
  unfold push at hok ⊢
  split at hok
  · next hfull =>
    -- the whole buffer is in the file now, and the new item alone in the buffer
    rw [dif_pos hfull]
    have hidx : a.bufferIndex = n := Nat.le_antisymm a.bufferIndex_le hfull
    have hbuf : a.buffered = a.buffer.toList := by
      rw [buffered, List.take_of_length_le (by simp [hidx])]
    cases hw : (a.flushBuffer writes).2 with
    | error e => rw [hw] at hok; cases hok
    | ok u =>
      refine ⟨flushed ++ a.buffer.toList, ?_, ?_⟩
      · exact ⟨(holds_flushBuffer h hw).file, (holds_flushBuffer h hw).length⟩
      · have hempty : (a.flushBuffer writes).1.buffered = [] := rfl
        simp only
        rw [buffered_store, hempty, hbuf, List.nil_append]
  · next hroom =>
    rw [dif_neg hroom]
    exact ⟨flushed, ⟨h.file, h.length⟩, by simp only; rw [buffered_store, List.append_assoc]⟩

/-- Reading back: the buffered items, then the flushed ones. -/
theorem tryIter_of_holds {a : TempFdArray T β n} {flushed : List T} (h : a.Holds flushed) :
    ∃ it, a.tryIter = .ok it ∧ it.toList = a.buffered ++ flushed := by
  have hsize : a.file.length = n * a.flushN * size T := by
    rw [h.file, length_image, h.length]
  refine ⟨⟨a.buffered, a.file.take (n * a.flushN * size T), 0⟩, ?_, ?_⟩
  · simp [tryIter, hsize]
  · rw [TempFdArrayIterator.toList_eq, List.take_of_length_le (by omega), h.file, records_image]

/-! ### After a failed write: a short file -/

/-- The file holds fewer bytes than the counter of flushed buffers promises. -/
def Short (a : TempFdArray T β n) : Prop := a.file.length < n * a.flushN * size T

/-- The file never holds more bytes than promised. -/
def Bounded (a : TempFdArray T β n) : Prop := a.file.length ≤ n * a.flushN * size T

theorem tryIter_of_short {a : TempFdArray T β n} (h : a.Short) :
    a.tryIter = .error .unexpectedEof := by
  unfold tryIter
  exact if_pos h

theorem length_writeAll_le (writes : List WriteResult) (buf : List β) :
    (writeAll writes buf).1.length ≤ buf.length := by
  cases h : (writeAll writes buf).2 with
  | ok u => exact Nat.le_of_eq (congrArg List.length (fst_writeAll_of_ok _ _ h))
  | error e => exact Nat.le_of_lt (length_writeAll_of_error _ _ h)

/-- How a flush moves the length of the file. -/
theorem length_flushBuffer (a : TempFdArray T β n) (writes : List WriteResult) :
    (a.flushBuffer writes).1.file.length =
        a.file.length + (writeAll writes (image a.buffer.toList)).1.length ∧
      (a.flushBuffer writes).1.flushN = a.flushN + 1 ∧
      (image a.buffer.toList).length = n * size T := by
  refine ⟨by simp [flushBuffer], rfl, ?_⟩
  rw [length_image, Vector.length_toList]

theorem promised_succ (m : ℕ) : n * (m + 1) * size T = n * m * size T + n * size T := by
  rw [Nat.mul_succ, Nat.add_mul]

theorem bounded_flushBuffer {a : TempFdArray T β n} (h : a.Bounded) (writes : List WriteResult) :
    (a.flushBuffer writes).1.Bounded := by
  obtain ⟨hfile, hn, himg⟩ := a.length_flushBuffer writes
  have hle := length_writeAll_le writes (image a.buffer.toList)
  rw [Bounded] at h ⊢
  rw [hfile, hn, promised_succ]
  omega

theorem Short.flushBuffer {a : TempFdArray T β n} (h : a.Short) (writes : List WriteResult) :
    (a.flushBuffer writes).1.Short := by
  obtain ⟨hfile, hn, himg⟩ := a.length_flushBuffer writes
  have hle := length_writeAll_le writes (image a.buffer.toList)
  rw [Short] at h ⊢
  rw [hfile, hn, promised_succ]
  omega

/-- A failed flush leaves the file short. -/
theorem short_flushBuffer {a : TempFdArray T β n} (h : a.Bounded) {writes : List WriteResult}
    {e : IoError} (herr : (a.flushBuffer writes).2 = .error e) :
    (a.flushBuffer writes).1.Short := by
  obtain ⟨hfile, hn, himg⟩ := a.length_flushBuffer writes
  have hlt := length_writeAll_of_error writes (image a.buffer.toList) herr
  rw [Bounded] at h
  rw [Short, hfile, hn, promised_succ]
  omega

variable [NeZero n]

/-- A push keeps the file, or is a flush as far as the file is concerned. -/
theorem push_file (a : TempFdArray T β n) (writes : List WriteResult) (entry : T) :
    (a.bufferIndex < n ∧ (a.push writes entry).1.file = a.file ∧
        (a.push writes entry).1.flushN = a.flushN ∧ (a.push writes entry).2 = .ok ()) ∨
      (n ≤ a.bufferIndex ∧ (a.push writes entry).1.file = (a.flushBuffer writes).1.file ∧
        (a.push writes entry).1.flushN = (a.flushBuffer writes).1.flushN ∧
        (a.push writes entry).2 = (a.flushBuffer writes).2) := by
  unfold push
  split
  · next hfull =>
    right
    cases hw : (a.flushBuffer writes).2 with
    | error e => exact ⟨hfull, rfl, rfl, rfl⟩
    | ok u => exact ⟨hfull, rfl, rfl, rfl⟩
  · next hroom => exact Or.inl ⟨Nat.lt_of_not_le hroom, rfl, rfl, rfl⟩

theorem bounded_push {a : TempFdArray T β n} (h : a.Bounded) (writes : List WriteResult)
    (entry : T) : (a.push writes entry).1.Bounded := by
  rcases a.push_file writes entry with ⟨-, hf, hn, -⟩ | ⟨-, hf, hn, -⟩
  · rw [Bounded, hf, hn]; exact h
  · rw [Bounded, hf, hn]; exact bounded_flushBuffer h writes

/-- **A short file stays short**, whatever the later writes do. -/
theorem Short.push {a : TempFdArray T β n} (h : a.Short) (writes : List WriteResult)
    (entry : T) : (a.push writes entry).1.Short := by
  rcases a.push_file writes entry with ⟨-, hf, hn, -⟩ | ⟨-, hf, hn, -⟩
  · rw [Short, hf, hn]; exact h
  · rw [Short, hf, hn]; exact h.flushBuffer writes

/-- A push that returns an error leaves the file short. -/
theorem short_push {a : TempFdArray T β n} (h : a.Bounded) {writes : List WriteResult} {entry : T}
    {e : IoError} (herr : (a.push writes entry).2 = .error e) :
    (a.push writes entry).1.Short := by
  rcases a.push_file writes entry with ⟨-, -, -, hok⟩ | ⟨-, hf, hn, hr⟩
  · rw [hok] at herr; cases herr
  · rw [Short, hf, hn]
    exact short_flushBuffer h (hr.symm.trans herr)

/-- A push whose script makes progress succeeds. -/
theorem push_ok {a : TempFdArray T β n} {writes : List WriteResult}
    (h : ∀ w ∈ writes, w.Succeeds) (entry : T) : (a.push writes entry).2 = .ok () := by
  rcases a.push_file writes entry with ⟨-, -, -, hok⟩ | ⟨-, -, -, hr⟩
  · exact hok
  · rw [hr]
    exact writeAll_of_succeeds writes _ h

end TempFdArray

end Rpprof
