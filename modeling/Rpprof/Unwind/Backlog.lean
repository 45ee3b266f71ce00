import Mathlib.Algebra.Order.BigOperators.Group.List
import Mathlib.Algebra.Order.Group.Nat
import Rpprof.Unwind.Validate

/-!
# The backlog of the validation pipe

Every call drains from an opened pipe what one call adds to it, but calls overlap: what is in
the pipe, and what the calls between their read and their write will add, is together never more
than one write for each call that may be in progress.  So there is always room, and the answer
of a call is that of the memory.

## Main definitions

* `Validation.inProgress`, `Validation.AtMost` — the calls that have not returned, and a bound.
* `Shared.Opened` — the two descriptors are the ends of one pipe.
* `Validation.Draining` — the invariant.

## Main results

* `Validation.draining_of_reach` — the backlog is bounded, in every interleaving.
* `Validation.validate_exact` — **`validate` is exact under concurrency**.
-/

namespace Rpprof

namespace ValidatePc

/-- One for a call that has not returned. -/
def busy : ValidatePc → ℕ
  | done _ => 0
  | _ => 1

/-- One for a call between its read and its write. -/
def pending : ValidatePc → ℕ
  | loadWrite | write _ => 1
  | _ => 0

theorem pending_le_busy (pc : ValidatePc) : pc.pending ≤ pc.busy := by
  cases pc <;> simp [pending, busy]

end ValidatePc

/-- The stored descriptors are the two ends of one open pipe. -/
structure Shared.Opened (pipe : ℕ) (w : Shared) : Prop where
  nonneg : 0 ≤ w.pipes.readFd
  read : w.kernel.fds.get? w.pipes.readFd = some (.read pipe)
  write : w.kernel.fds.get? w.pipes.writeFd = some (.write pipe)

/-! ### The pipe -/

namespace Kernel

variable {k : Kernel} {fd : ℤ} {pipe : ℕ} {capacity : ℕ}

theorem isOpen_of_get? {e : PipeEnd} (h : k.fds.get? fd = some e) : k.isOpen e = true := by
  obtain ⟨fd', hmem, -⟩ := Table.exists_mem_of_get? h
  exact List.any_eq_true.mpr ⟨_, hmem, beq_self_eq_true e⟩

/-- A read from a pipe whose other end is open drains it, and the call goes on. -/
theorem read_of_opened (h : k.fds.get? fd = some (.read pipe))
    (hwrite : k.isOpen (.write pipe) = true) :
    ValidatePc.afterRead (k.read fd).1 = .loadWrite ∧ (k.read fd).2.fds = k.fds ∧
      (k.read fd).2.bytes pipe = k.bytes pipe - checkLength := by
  simp only [read, h, hwrite, if_true]
  by_cases hbytes : 0 < k.bytes pipe
  · have hmin : 0 < min checkLength (k.bytes pipe) := lt_min (by decide) hbytes
    rw [if_pos hbytes]
    exact ⟨if_pos hmin, rfl, Function.update_self ..⟩
  · rw [if_neg hbytes]
    refine ⟨rfl, rfl, ?_⟩
    show k.bytes pipe = k.bytes pipe - checkLength
    omega

/-- A write to a pipe with room answers whether the bytes can be read. -/
theorem write_of_opened (h : k.fds.get? fd = some (.write pipe))
    (hread : k.isOpen (.read pipe) = true) (hroom : k.bytes pipe + checkLength ≤ capacity)
    (readable : ℕ → Bool) (addr : ℕ) :
    ValidatePc.afterWrite (k.write capacity readable fd addr).1 =
        .done (readableAt readable addr) ∧
      (k.write capacity readable fd addr).1 ≠ .error .eagain ∧
      (k.write capacity readable fd addr).2.fds = k.fds ∧
      (k.write capacity readable fd addr).2.bytes pipe ≤ k.bytes pipe + checkLength := by
  simp only [write, h, hread, if_neg (not_lt.mpr hroom), Bool.true_eq_false, if_false]
  by_cases hreadable : readableAt readable addr = true
  · rw [if_pos hreadable, hreadable]
    exact ⟨rfl, by simp, rfl, (Function.update_self ..).le⟩
  · rw [if_neg hreadable, Bool.not_eq_true _ |>.mp hreadable]
    exact ⟨rfl, by simp, rfl, Nat.le_add_right ..⟩

end Kernel

/-! ### The invariant -/

namespace Validation

/-- The calls that have not returned. -/
def inProgress (s : Validation) : ℕ := count ValidatePc.busy s.calls

/-- The calls between their read and their write. -/
def pending (s : Validation) : ℕ := count ValidatePc.pending s.calls

/-- A call begins only while fewer than `T` are in progress. -/
def AtMost (T : ℕ) (s : Validation) : ValidateAct → Prop
  | .start _ => s.inProgress < T
  | .advance _ _ => True

instance (T : ℕ) (s : Validation) : ∀ act, Decidable (AtMost T s act)
  | .start _ => inferInstanceAs (Decidable (_ < _))
  | .advance _ _ => inferInstanceAs (Decidable True)

/-- A call on its way through the opened pipe: it has a pointer to check, and has loaded the two
descriptors; if it has returned, the answer is right. -/
def OnPath (pipes : Pipes) (readable : ℕ → Bool) (c : ValidateCall) : Prop :=
  match c.pc with
  | .loadRead | .loadWrite => c.addr ≠ 0
  | .read fd => c.addr ≠ 0 ∧ fd = pipes.readFd
  | .write fd => c.addr ≠ 0 ∧ fd = pipes.writeFd
  | .opening _ => False
  | .done result => result = true ↔ c.addr ≠ 0 ∧ Kernel.readableAt readable c.addr = true

/-- What holds while calls go through the opened pipe. -/
structure Draining (T : ℕ) (readable : ℕ → Bool) (pipe : ℕ) (s : Validation) : Prop where
  opened : s.shared.Opened pipe
  onPath : ∀ c ∈ s.calls, OnPath s.shared.pipes readable c
  bounded : s.inProgress ≤ T
  /-- The bytes in the pipe, and those still to be written. -/
  backlog : s.shared.kernel.bytes pipe + checkLength * s.pending ≤ checkLength * T

section Draining

variable {T capacity : ℕ} {readable : ℕ → Bool} {pipe : ℕ} {s s' : Validation} {act : ValidateAct}

theorem pending_le_inProgress (s : Validation) : s.pending ≤ s.inProgress :=
  List.sum_le_sum fun c _ => c.pc.pending_le_busy

/-- A call that is about to write has room. -/
theorem Draining.room (hs : Draining T readable pipe s) (hcap : checkLength * T ≤ capacity)
    {c : ValidateCall} (hc : c ∈ s.calls) (hpc : c.pc.pending = 1) :
    s.shared.kernel.bytes pipe + checkLength ≤ capacity := by
  have hpending : 1 ≤ s.pending := by
    rw [← hpc]
    exact le_count ValidatePc.pending hc
  have hmul := Nat.mul_le_mul_left checkLength hpending
  have := hs.backlog
  omega

/-- A call takes a step on its way: it stays there, and adds to the pipe no more than it had
still to write, or the pipe is empty. -/
theorem Draining.set (hs : Draining T readable pipe s) {i addr : ℕ} {pc pc' : ValidatePc}
    {w : Shared} (hc : s.calls[i]? = some ⟨addr, pc⟩) (hpipes : w.pipes = s.shared.pipes)
    (hfds : w.kernel.fds = s.shared.kernel.fds) (hpath : OnPath w.pipes readable ⟨addr, pc'⟩)
    (hbusy : pc'.busy ≤ pc.busy)
    (hbytes : w.kernel.bytes pipe + checkLength * pc'.pending ≤
      s.shared.kernel.bytes pipe + checkLength * pc.pending ∨ w.kernel.bytes pipe = 0) :
    Draining T readable pipe ⟨w, s.calls.set i ⟨addr, pc'⟩⟩ := by
  have hinProgress : (⟨w, s.calls.set i ⟨addr, pc'⟩⟩ : Validation).inProgress + pc.busy =
      s.inProgress + pc'.busy := count_set ValidatePc.busy hc pc'
  have hpending : (⟨w, s.calls.set i ⟨addr, pc'⟩⟩ : Validation).pending + pc.pending =
      s.pending + pc'.pending := count_set ValidatePc.pending hc pc'
  have hbounded : (⟨w, s.calls.set i ⟨addr, pc'⟩⟩ : Validation).inProgress ≤ T := by
    have hbefore := hs.bounded
    omega
  refine ⟨⟨?_, ?_, ?_⟩, ?_, hbounded, ?_⟩
  · rw [hpipes]
    exact hs.opened.nonneg
  · rw [hpipes, hfds]
    exact hs.opened.read
  · rw [hpipes, hfds]
    exact hs.opened.write
  · intro c hc
    rcases List.mem_or_eq_of_mem_set hc with hold | rfl
    · rw [hpipes]
      exact hs.onPath c hold
    · exact hpath
  · rcases hbytes with hadd | hempty
    · -- what the call writes, it had still to write
      have hbefore := hs.backlog
      have hmul := congrArg (checkLength * ·) hpending
      simp only [mul_add] at hmul
      simp only
      omega
    · -- nothing in the pipe: no more is still to be written than one write a call
      rw [hempty, Nat.zero_add]
      exact Nat.mul_le_mul_left _ ((pending_le_inProgress _).trans hbounded)

/-- A call that starts has nothing to write yet. -/
theorem Draining.start (hs : Draining T readable pipe s) (addr : ℕ) (hlt : s.inProgress < T) :
    Draining T readable pipe ⟨s.shared, s.calls ++ [ValidateCall.new addr]⟩ := by
  have hbusy : (ValidateCall.new addr).pc.busy ≤ 1 := by
    by_cases haddr : addr = 0 <;> simp [ValidateCall.new, haddr, ValidatePc.busy]
  have hpending : (ValidateCall.new addr).pc.pending = 0 := by
    by_cases haddr : addr = 0 <;> simp [ValidateCall.new, haddr, ValidatePc.pending]
  refine ⟨hs.opened, ?_, ?_, ?_⟩
  · intro c hc
    rcases List.mem_append.mp hc with hold | hnew
    · exact hs.onPath c hold
    · rw [List.mem_singleton.mp hnew, OnPath, ValidateCall.new]
      by_cases haddr : addr = 0 <;> simp [haddr]
  · rw [inProgress, count_concat]
    rw [inProgress] at hlt
    omega
  · rw [pending, count_concat, hpending, Nat.add_zero]
    exact hs.backlog

/-- **Every step keeps the backlog bounded.** -/
theorem Draining.step (hcap : checkLength * T ≤ capacity) (hs : Draining T readable pipe s)
    (hact : AtMost T s act) (h : s.step capacity readable act = some s') :
    Draining T readable pipe s' := by
  have hread := hs.opened.read
  have hwrite := hs.opened.write
  cases step_spec h with
  | @start addr => exact hs.start addr hact
  | @advance i answer addr pc w pc' hc hnext =>
    have hpath := hs.onPath _ (List.mem_of_getElem? hc)
    cases hnext with
    | loadSome hfd => exact hs.set hc rfl rfl ⟨hpath, rfl⟩ le_rfl (Or.inl le_rfl)
    | loadNone hfd => exact absurd hs.opened.nonneg (not_le.mpr hfd)
    | @read fd =>
      obtain ⟨haddr, rfl⟩ := hpath
      obtain ⟨hafter, hfds, hbytes⟩ := Kernel.read_of_opened hread (Kernel.isOpen_of_get? hwrite)
      rw [hafter]
      refine hs.set hc rfl hfds haddr le_rfl ?_
      simp only [hbytes, ValidatePc.pending]
      omega
    | readAgain => exact hs.set hc rfl rfl hpath le_rfl (Or.inl le_rfl)
    | loadWrite => exact hs.set hc rfl rfl ⟨hpath, rfl⟩ le_rfl (Or.inl le_rfl)
    | @write fd =>
      obtain ⟨haddr, rfl⟩ := hpath
      have hroom := hs.room hcap (List.mem_of_getElem? hc) rfl
      obtain ⟨hafter, -, hfds, hbytes⟩ :=
        Kernel.write_of_opened hwrite (Kernel.isOpen_of_get? hread) hroom readable addr
      rw [hafter]
      refine hs.set hc rfl hfds ?_ (Nat.zero_le _) (Or.inl hbytes)
      exact ⟨fun hreadable => ⟨haddr, hreadable⟩, fun hreadable => hreadable.2⟩
    | writeAgain => exact hs.set hc rfl rfl hpath le_rfl (Or.inl le_rfl)
    | openLoadRead | closeRead | openLoadWrite | closeWrite | create | createFails | storeRead
    | storeWrite => exact hpath.elim

/-- **The backlog is bounded in every interleaving** of calls of which at most `T` are in progress
at once. -/
theorem draining_of_reach {w : Shared} (hcap : checkLength * T ≤ capacity) (hopen : w.Opened pipe)
    (hbytes : w.kernel.bytes pipe ≤ checkLength * T)
    (h : Machine.Reach (step capacity readable) (AtMost T) ⟨w, []⟩ s) :
    Draining T readable pipe s := by
  have hstart : Draining T readable pipe ⟨w, []⟩ :=
    ⟨hopen, fun c hc => absurd hc List.not_mem_nil, Nat.zero_le T, hbytes⟩
  exact h.invariant hstart fun _ _ _ hs hact hstep => hs.step hcap hact hstep

/-- **`validate` is exact under concurrency**: the pipe never holds more than one write for each
call in progress, no write finds it full, what a call answers is whether its address is not null
and can be read, and a call that is let run answers. -/
theorem validate_exact {w : Shared} (hcap : checkLength * T ≤ capacity) (hopen : w.Opened pipe)
    (hbytes : w.kernel.bytes pipe ≤ checkLength * T)
    (h : Machine.Reach (step capacity readable) (AtMost T) ⟨w, []⟩ s) :
    s.shared.kernel.bytes pipe ≤ checkLength * T ∧
    (∀ c ∈ s.calls, ∀ fd, c.pc = .write fd →
      (s.shared.kernel.write capacity readable fd c.addr).1 ≠ .error .eagain) ∧
    (∀ c ∈ s.calls, ∀ result, c.pc = .done result →
      (result = true ↔ c.addr ≠ 0 ∧ Kernel.readableAt readable c.addr = true)) ∧
    ∀ (i : ℕ) (c : ValidateCall), s.calls[i]? = some c → ∃ (answers : List Answer)
      (s' : Validation) (result : Bool), Machine.run (step capacity readable) s
        (answers.map fun answer => .advance i answer) = some s' ∧
      s'.calls[i]? = some ⟨c.addr, .done result⟩ ∧
      (result = true ↔ c.addr ≠ 0 ∧ Kernel.readableAt readable c.addr = true) := by
  have hs := draining_of_reach hcap hopen hbytes h
  -- what has been returned, in any state reached
  have hanswer : ∀ {s : Validation}, Draining T readable pipe s → ∀ c ∈ s.calls, ∀ result,
      c.pc = .done result →
        (result = true ↔ c.addr ≠ 0 ∧ Kernel.readableAt readable c.addr = true) := by
    intro s hs c hc result hpc
    have hpath := hs.onPath c hc
    rw [OnPath, hpc] at hpath
    exact hpath
  refine ⟨(Nat.le_add_right ..).trans hs.backlog, ?_, hanswer hs, ?_⟩
  · intro c hc fd hpc
    have hpath := hs.onPath c hc
    rw [OnPath, hpc] at hpath
    obtain ⟨-, rfl⟩ := hpath
    have hroom := hs.room hcap hc (by rw [hpc]; rfl)
    exact (Kernel.write_of_opened hs.opened.write (Kernel.isOpen_of_get? hs.opened.read) hroom
      readable c.addr).2.1
  · intro i c hc
    obtain ⟨answers, s', result, hrun, hc'⟩ := exists_return capacity readable _ hc le_rfl
    have hreach : Machine.Reach (step capacity readable) (AtMost T) s s' := by
      refine Machine.Reach.of_run (fun _ act hact => ?_) hrun
      obtain ⟨answer, -, rfl⟩ := List.mem_map.mp hact
      trivial
    have hs' := draining_of_reach hcap hopen hbytes (h.trans hreach)
    exact ⟨answers, s', result, hrun, hc', hanswer hs' _ (List.mem_of_getElem? hc') result rfl⟩

end Draining

/-- A process that has opened its pipe. -/
def openedShared : Shared :=
  ⟨⟨3, 4⟩, (⟨Table.empty, fun _ => 0, 0⟩ : Kernel).pipe2 3 4⟩

/-- Two calls at once, the one for an address that can be read and the other for one that cannot;
the first is interrupted in its read. -/
def overlap : List ValidateAct :=
  [.start 4096, .advance 0 .go, .advance 0 .eintr, .start 8192, .advance 1 .go, .advance 0 .go,
    .advance 0 .go, .advance 0 .go, .advance 1 .go, .advance 1 .go, .advance 1 .go]

/-- The first 5000 bytes of memory can be read. -/
def lowMemory (addr : ℕ) : Bool := decide (addr < 5000)

theorem validate_exact_overlap : ∃ s : Validation,
    Machine.run (step 65536 lowMemory) ⟨openedShared, []⟩ overlap = some s ∧
    s.calls = [⟨4096, .done true⟩, ⟨8192, .done false⟩] ∧
    s.shared.kernel.bytes 0 ≤ checkLength * 2 := by
  have hopen : openedShared.Opened 0 := ⟨by decide, rfl, rfl⟩
  have hatMost : Machine.Throughout (step 65536 lowMemory) (AtMost 2) ⟨openedShared, []⟩
      overlap := by decide +kernel
  refine ⟨_, rfl, rfl, ?_⟩
  exact (validate_exact (T := 2) (by decide) hopen (by decide)
    (Machine.Reach.of_throughout hatMost rfl)).1

end Validation

end Rpprof
