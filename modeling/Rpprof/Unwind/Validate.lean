import Mathlib.Algebra.Order.Group.Nat
import Mathlib.Logic.Function.Basic
import Rpprof.Lib.Machine
import Rpprof.Lib.Table

/-!
# Validating addresses

`validate` has the kernel read from an address, by writing it to a pipe, after it has drained
from the pipe what a call may have left there.  Calls run at once, on threads and in signal
handlers, and share the pipe: its two descriptors are kept in two atomics, and a call that finds
no pipe to read from opens a new one.  A step is one atomic access or one system call.

## Main definitions

* `Kernel`, `Kernel.read`, `Kernel.write` — the descriptors and the pipes.
* `ValidatePc`, `ValidatePc.next` — where a call is, and its next step.
* `Validation`, `Validation.step` — all calls, one step of one of them at a time.

## Main results

* `ValidatePc.next_spec` — what one step of a call can do.
* `Validation.step_spec` — the same for all calls.
* `Validation.exists_return` — a call that is let run returns.
-/

namespace Rpprof

/-- `CHECK_LENGTH`. -/
def checkLength : ℕ := 16

/-! ### The kernel -/

/-- What a descriptor stands for. -/
inductive PipeEnd where
  | read (pipe : ℕ)
  | write (pipe : ℕ)
deriving DecidableEq, Repr

/-- The errors other than `EINTR`. -/
inductive Errno where
  | eagain
  | efault
  | ebadf
  | epipe
deriving DecidableEq, Repr

/-- The descriptors, and the bytes in every pipe. -/
structure Kernel where
  fds : Table ℤ PipeEnd
  bytes : ℕ → ℕ
  nextPipe : ℕ

namespace Kernel

/-- A descriptor of the end is open. -/
def isOpen (k : Kernel) (e : PipeEnd) : Bool := k.fds.entries.any fun fd => fd.2 == e

/-- `read` of `CHECK_LENGTH` bytes from a non-blocking descriptor. -/
def read (k : Kernel) (fd : ℤ) : Except Errno ℕ × Kernel :=
  match k.fds.get? fd with
  | some (.read pipe) =>
    if 0 < k.bytes pipe then
      (.ok (min checkLength (k.bytes pipe)),
        { k with bytes := Function.update k.bytes pipe (k.bytes pipe - checkLength) })
    else if k.isOpen (.write pipe) then (.error .eagain, k)
    else (.ok 0, k)
  | _ => (.error .ebadf, k)

/-- The bytes that are checked can be read. -/
def readableAt (readable : ℕ → Bool) (addr : ℕ) : Bool :=
  (List.range checkLength).all fun i => readable (addr + i)

/-- `write` of `CHECK_LENGTH` bytes to a non-blocking descriptor, from an address. -/
def write (capacity : ℕ) (readable : ℕ → Bool) (k : Kernel) (fd : ℤ) (addr : ℕ) :
    Except Errno ℕ × Kernel :=
  match k.fds.get? fd with
  | some (.write pipe) =>
    if k.isOpen (.read pipe) = false then (.error .epipe, k)
    else if capacity < k.bytes pipe + checkLength then (.error .eagain, k)
    else if readableAt readable addr then
      (.ok checkLength,
        { k with bytes := Function.update k.bytes pipe (k.bytes pipe + checkLength) })
    else (.error .efault, k)
  | _ => (.error .ebadf, k)

/-- `close`. -/
def close (k : Kernel) (fd : ℤ) : Kernel := { k with fds := k.fds.erase fd }

/-- `pipe2`, for the descriptors it hands out. -/
def pipe2 (k : Kernel) (readFd writeFd : ℤ) : Kernel where
  fds := (k.fds.insert readFd (.read k.nextPipe)).insert writeFd (.write k.nextPipe)
  bytes := Function.update k.bytes k.nextPipe 0
  nextPipe := k.nextPipe + 1

/-- Two descriptors that `pipe2` can hand out. -/
def Unused (k : Kernel) (readFd writeFd : ℤ) : Prop :=
  0 ≤ readFd ∧ 0 ≤ writeFd ∧ readFd ≠ writeFd ∧
    k.fds.get? readFd = none ∧ k.fds.get? writeFd = none

instance (k : Kernel) (readFd writeFd : ℤ) : Decidable (k.Unused readFd writeFd) :=
  inferInstanceAs (Decidable (_ ∧ _))

end Kernel

/-! ### One call -/

/-- `Pipes`. -/
structure Pipes where
  readFd : ℤ
  writeFd : ℤ
deriving DecidableEq, Repr

/-- What the calls share: `MEM_VALIDATE_PIPE`, and the kernel. -/
structure Shared where
  pipes : Pipes
  kernel : Kernel

/-- The steps of `open_pipe`, in order. -/
inductive OpenStep where
  | loadRead
  | closeRead (fd : ℤ)
  | loadWrite
  | closeWrite (fd : ℤ)
  /-- Before `create_pipe`. -/
  | create
  | storeRead (readFd writeFd : ℤ)
  | storeWrite (writeFd : ℤ)
deriving DecidableEq, Repr

/-- Where a call of `validate` is. -/
inductive ValidatePc where
  /-- Before `read_fd` is loaded. -/
  | loadRead
  /-- In the loop around `read`. -/
  | read (fd : ℤ)
  /-- In `open_pipe`. -/
  | opening (at_ : OpenStep)
  /-- Before `write_fd` is loaded. -/
  | loadWrite
  /-- In the loop around `write`. -/
  | write (fd : ℤ)
  /-- Returned. -/
  | done (result : Bool)
deriving DecidableEq, Repr

/-- What a step depends on beside the state. -/
inductive Answer where
  /-- Nothing. -/
  | go
  /-- The system call is interrupted. -/
  | eintr
  /-- `create_pipe` succeeds. -/
  | pipe (readFd writeFd : ℤ)
  /-- `create_pipe` fails. -/
  | noPipe
deriving DecidableEq, Repr

namespace ValidatePc

/-- After `read`. -/
def afterRead : Except Errno ℕ → ValidatePc
  | .ok n => if 0 < n then loadWrite else opening .loadRead
  | .error .eagain => loadWrite
  | .error _ => opening .loadRead

/-- After `write`. -/
def afterWrite : Except Errno ℕ → ValidatePc
  | .ok n => done (decide (0 < n))
  | .error _ => done false

variable (capacity : ℕ) (readable : ℕ → Bool)

/-- The next step of a call. -/
def next (w : Shared) (addr : ℕ) : ValidatePc → Answer → Option (Shared × ValidatePc)
  | loadRead, .go =>
    some (w, if 0 ≤ w.pipes.readFd then read w.pipes.readFd else opening .loadRead)
  | read fd, .go =>
    some ({ w with kernel := (w.kernel.read fd).2 }, afterRead (w.kernel.read fd).1)
  | read fd, .eintr => some (w, read fd)
  | opening .loadRead, .go => some (w, opening (.closeRead w.pipes.readFd))
  | opening (.closeRead fd), .go =>
    some ({ w with kernel := w.kernel.close fd }, opening .loadWrite)
  | opening .loadWrite, .go => some (w, opening (.closeWrite w.pipes.writeFd))
  | opening (.closeWrite fd), .go =>
    some ({ w with kernel := w.kernel.close fd }, opening .create)
  | opening .create, .pipe readFd writeFd =>
    if w.kernel.Unused readFd writeFd then
      some ({ w with kernel := w.kernel.pipe2 readFd writeFd },
        opening (.storeRead readFd writeFd))
    else none
  | opening .create, .noPipe => some (w, done false)
  | opening (.storeRead readFd writeFd), .go =>
    some ({ w with pipes := { w.pipes with readFd := readFd } }, opening (.storeWrite writeFd))
  | opening (.storeWrite writeFd), .go =>
    some ({ w with pipes := { w.pipes with writeFd := writeFd } }, loadWrite)
  | loadWrite, .go => some (w, write w.pipes.writeFd)
  | write fd, .go =>
    some ({ w with kernel := (w.kernel.write capacity readable fd addr).2 },
      afterWrite (w.kernel.write capacity readable fd addr).1)
  | write fd, .eintr => some (w, write fd)
  | _, _ => none

/-- The steps of a call, one by one. -/
inductive Next (w : Shared) (addr : ℕ) : ValidatePc → Answer → Shared → ValidatePc → Prop where
  | loadSome : 0 ≤ w.pipes.readFd → Next w addr loadRead .go w (read w.pipes.readFd)
  | loadNone : w.pipes.readFd < 0 → Next w addr loadRead .go w (opening .loadRead)
  | read {fd} : Next w addr (read fd) .go { w with kernel := (w.kernel.read fd).2 }
      (afterRead (w.kernel.read fd).1)
  | readAgain {fd} : Next w addr (read fd) .eintr w (read fd)
  | openLoadRead :
      Next w addr (opening .loadRead) .go w (opening (.closeRead w.pipes.readFd))
  | closeRead {fd} : Next w addr (opening (.closeRead fd)) .go
      { w with kernel := w.kernel.close fd } (opening .loadWrite)
  | openLoadWrite :
      Next w addr (opening .loadWrite) .go w (opening (.closeWrite w.pipes.writeFd))
  | closeWrite {fd} : Next w addr (opening (.closeWrite fd)) .go
      { w with kernel := w.kernel.close fd } (opening .create)
  | create {readFd writeFd} : w.kernel.Unused readFd writeFd →
      Next w addr (opening .create) (.pipe readFd writeFd)
        { w with kernel := w.kernel.pipe2 readFd writeFd } (opening (.storeRead readFd writeFd))
  | createFails : Next w addr (opening .create) .noPipe w (done false)
  | storeRead {readFd writeFd} : Next w addr (opening (.storeRead readFd writeFd)) .go
      { w with pipes := { w.pipes with readFd := readFd } } (opening (.storeWrite writeFd))
  | storeWrite {writeFd} : Next w addr (opening (.storeWrite writeFd)) .go
      { w with pipes := { w.pipes with writeFd := writeFd } } loadWrite
  | loadWrite : Next w addr loadWrite .go w (write w.pipes.writeFd)
  | write {fd} : Next w addr (write fd) .go
      { w with kernel := (w.kernel.write capacity readable fd addr).2 }
      (afterWrite (w.kernel.write capacity readable fd addr).1)
  | writeAgain {fd} : Next w addr (write fd) .eintr w (write fd)

variable {capacity readable} {w w' : Shared} {addr : ℕ} {pc pc' : ValidatePc} {answer : Answer}

/-- **Every step of a call is one of the listed ones.** -/
theorem next_spec (h : pc.next capacity readable w addr answer = some (w', pc')) :
    Next capacity readable w addr pc answer w' pc' := by
  cases pc with
  | loadRead =>
    cases answer with
    | go =>
      cases h
      split
      · next hfd => exact .loadSome hfd
      · next hfd => exact .loadNone (not_le.mp hfd)
    | eintr | pipe | noPipe => cases h
  | read fd =>
    cases answer with
    | go => cases h; exact .read
    | eintr => cases h; exact .readAgain
    | pipe | noPipe => cases h
  | opening at_ =>
    cases at_ with
    | create =>
      cases answer with
      | pipe readFd writeFd =>
        simp only [next] at h
        split at h
        · next hfree => cases h; exact .create hfree
        · cases h
      | noPipe => cases h; exact .createFails
      | go | eintr => cases h
    | loadRead => cases answer <;> cases h; exact .openLoadRead
    | closeRead fd => cases answer <;> cases h; exact .closeRead
    | loadWrite => cases answer <;> cases h; exact .openLoadWrite
    | closeWrite fd => cases answer <;> cases h; exact .closeWrite
    | storeRead readFd writeFd => cases answer <;> cases h; exact .storeRead
    | storeWrite writeFd => cases answer <;> cases h; exact .storeWrite
  | loadWrite => cases answer <;> cases h; exact .loadWrite
  | write fd =>
    cases answer with
    | go => cases h; exact .write
    | eintr => cases h; exact .writeAgain
    | pipe | noPipe => cases h
  | done result => cases answer <;> cases h

end ValidatePc

/-! ### All calls -/

/-- A call of `validate`. -/
structure ValidateCall where
  addr : ℕ
  pc : ValidatePc
deriving DecidableEq, Repr

/-- A call that begins; a null pointer is answered at once. -/
def ValidateCall.new (addr : ℕ) : ValidateCall :=
  ⟨addr, if addr = 0 then .done false else .loadRead⟩

/-- The calls so far, and what they share. -/
structure Validation where
  shared : Shared
  calls : List ValidateCall

/-- A call begins, or one of them goes on. -/
inductive ValidateAct where
  | start (addr : ℕ)
  | advance (i : ℕ) (answer : Answer)
deriving DecidableEq, Repr

namespace Validation

variable (capacity : ℕ) (readable : ℕ → Bool)

/-- One step. -/
def step (s : Validation) : ValidateAct → Option Validation
  | .start addr => some { s with calls := s.calls ++ [.new addr] }
  | .advance i answer =>
    match s.calls[i]? with
    | some c =>
      match c.pc.next capacity readable s.shared c.addr answer with
      | some (shared, pc) => some ⟨shared, s.calls.set i { c with pc := pc }⟩
      | none => none
    | none => none

/-- What a step can do: the whole of it. -/
inductive Step (s : Validation) : ValidateAct → Validation → Prop where
  | start {addr} : Step s (.start addr) { s with calls := s.calls ++ [.new addr] }
  | advance {i answer addr pc w pc'} : s.calls[i]? = some ⟨addr, pc⟩ →
      pc.Next capacity readable s.shared addr answer w pc' →
      Step s (.advance i answer) ⟨w, s.calls.set i ⟨addr, pc'⟩⟩

variable {capacity readable} {s s' : Validation} {act : ValidateAct}

/-- **Every step is one of the listed ones.** -/
theorem step_spec (h : s.step capacity readable act = some s') :
    Step capacity readable s act s' := by
  cases act with
  | start addr => cases h; exact .start
  | advance i answer =>
    simp only [step] at h
    split at h
    · next c hc =>
      split at h
      · next w pc hnext => cases h; exact .advance hc (ValidatePc.next_spec hnext)
      · cases h
    · cases h

/-! ### Counting calls -/

/-- The calls, each counted by where it is. -/
def count (f : ValidatePc → ℕ) (calls : List ValidateCall) : ℕ := (calls.map fun c => f c.pc).sum

theorem count_concat (f : ValidatePc → ℕ) (calls : List ValidateCall) (c : ValidateCall) :
    count f (calls ++ [c]) = count f calls + f c.pc := by
  rw [count, List.map_append, List.sum_append, List.map_singleton, List.sum_singleton, count]

/-- A call goes on, and the others stay where they are. -/
theorem count_set (f : ValidatePc → ℕ) {calls : List ValidateCall} {i addr : ℕ} {pc : ValidatePc}
    (hc : calls[i]? = some ⟨addr, pc⟩) (pc' : ValidatePc) :
    count f (calls.set i ⟨addr, pc'⟩) + f pc = count f calls + f pc' := by
  obtain ⟨hi, hcall⟩ := List.getElem?_eq_some_iff.mp hc
  have hsum := List.sum_map_set (fun c : ValidateCall => f c.pc) calls i hi ⟨addr, pc'⟩
  rw [hcall] at hsum
  exact hsum

theorem le_count (f : ValidatePc → ℕ) {calls : List ValidateCall} {c : ValidateCall}
    (hc : c ∈ calls) : f c.pc ≤ count f calls :=
  List.single_le_sum (fun _ _ => Nat.zero_le _) _ (List.mem_map_of_mem hc)

end Validation

/-! ### Returning -/

namespace ValidatePc

/-- The steps to the end, at most, but for system calls that are interrupted. -/
def rank : ValidatePc → ℕ
  | loadRead => 11
  | read _ => 10
  | opening .loadRead => 9
  | opening (.closeRead _) => 8
  | opening .loadWrite => 7
  | opening (.closeWrite _) => 6
  | opening .create => 5
  | opening (.storeRead _ _) => 4
  | opening (.storeWrite _) => 3
  | loadWrite => 2
  | write _ => 1
  | done _ => 0

theorem rank_afterRead_lt (ret : Except Errno ℕ) (fd : ℤ) :
    (afterRead ret).rank < (read fd).rank := by
  unfold afterRead
  split
  · split <;> simp [rank]
  · simp [rank]
  · simp [rank]

theorem rank_afterWrite_lt (ret : Except Errno ℕ) (fd : ℤ) :
    (afterWrite ret).rank < (write fd).rank := by
  cases ret <;> simp [afterWrite, rank]

/-- A call that has not returned has a next step, nearer its end. -/
theorem exists_next (capacity : ℕ) (readable : ℕ → Bool) (w : Shared) (addr : ℕ) {pc : ValidatePc}
    (h : 0 < pc.rank) : ∃ answer w' pc',
      pc.next capacity readable w addr answer = some (w', pc') ∧ pc'.rank < pc.rank := by
  cases pc with
  | loadRead =>
    refine ⟨.go, _, _, rfl, ?_⟩
    split <;> simp [rank]
  | read fd => exact ⟨.go, _, _, rfl, rank_afterRead_lt _ fd⟩
  | opening at_ =>
    cases at_ with
    | create => exact ⟨.noPipe, _, _, rfl, by simp [rank]⟩
    | loadRead | loadWrite => exact ⟨.go, _, _, rfl, by simp [rank]⟩
    | closeRead fd | closeWrite fd => exact ⟨.go, _, _, rfl, by simp [rank]⟩
    | storeRead readFd writeFd => exact ⟨.go, _, _, rfl, by simp [rank]⟩
    | storeWrite writeFd => exact ⟨.go, _, _, rfl, by simp [rank]⟩
  | loadWrite => exact ⟨.go, _, _, rfl, by simp [rank]⟩
  | write fd => exact ⟨.go, _, _, rfl, rank_afterWrite_lt _ fd⟩
  | done result => cases h

end ValidatePc

/-- **A call that has not returned can go on, and gets nearer its end.** -/
theorem Validation.exists_advance {capacity : ℕ} {readable : ℕ → Bool} {s : Validation} {i : ℕ}
    {c : ValidateCall} (hc : s.calls[i]? = some c) (hpc : 0 < c.pc.rank) :
    ∃ answer s' pc, s.step capacity readable (.advance i answer) = some s' ∧
      s'.calls[i]? = some { c with pc := pc } ∧ pc.rank < c.pc.rank := by
  obtain ⟨answer, w, pc, hnext, hrank⟩ :=
    ValidatePc.exists_next capacity readable s.shared c.addr hpc
  have hi := (List.getElem?_eq_some_iff.mp hc).1
  refine ⟨answer, ⟨w, s.calls.set i { c with pc := pc }⟩, pc, ?_, List.getElem?_set_self hi, hrank⟩
  simp only [step, hc, hnext]

/-- **A call that is let run returns.** -/
theorem Validation.exists_return (capacity : ℕ) (readable : ℕ → Bool) (n : ℕ) :
    ∀ {s : Validation} {i : ℕ} {c : ValidateCall}, s.calls[i]? = some c → c.pc.rank ≤ n →
      ∃ (answers : List Answer) (s' : Validation) (result : Bool),
        Machine.run (step capacity readable) s (answers.map fun answer => .advance i answer) =
          some s' ∧ s'.calls[i]? = some ⟨c.addr, .done result⟩ := by
  induction n with
  | zero =>
    intro s i c hc hn
    obtain ⟨addr, pc⟩ := c
    cases pc with
    | done result => exact ⟨[], s, result, rfl, hc⟩
    | opening at_ => cases at_ <;> cases hn
    | loadRead | read | loadWrite | write => cases hn
  | succ n ih =>
    intro s i c hc hn
    by_cases hpc : 0 < c.pc.rank
    · obtain ⟨answer, s', pc, hstep, hc', hrank⟩ := exists_advance hc hpc
      obtain ⟨answers, s'', result, hrun, hresult⟩ := ih hc' (by simp only; omega)
      refine ⟨answer :: answers, s'', result, ?_, hresult⟩
      rw [List.map_cons, Machine.run_cons, hstep, Option.bind_some, hrun]
    · exact ih hc (by omega)

end Rpprof
