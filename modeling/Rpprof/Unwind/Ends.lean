import Rpprof.Unwind.Validate

/-!
# The ends of the validation pipe

`open_pipe` closes the two descriptors it finds stored, creates a pipe and stores its ends, one
after the other.  Calls that do so at once can leave one end of one pipe stored beside the other
end of another; as long as no pipe is created between another call's creation and its last
store, the call that leaves `open_pipe` last leaves both ends of its own.

## Main definitions

* `Kernel.Ends` — two descriptors are the open ends of one pipe.
* `Validation.Separate` — no pipe is created in the middle of another call's stores.
* `Validation.Handover` — the invariant.

## Main results

* `Validation.Handover.step` — one step hands the ends over.
* `Validation.ends_match` — **the stored ends match while no call is inside `open_pipe`**.
* `Validation.ends_mixed` — not so when two calls store at once.
-/

namespace Rpprof

namespace ValidatePc

/-- One for a call inside `open_pipe`. -/
def inside : ValidatePc → ℕ
  | opening _ => 1
  | _ => 0

/-- One for a call that has created a pipe and not stored both of its ends. -/
def storing : ValidatePc → ℕ
  | opening (.storeRead _ _) | opening (.storeWrite _) => 1
  | _ => 0

theorem storing_le_inside (pc : ValidatePc) : pc.storing ≤ pc.inside := by
  cases pc with
  | opening at_ => cases at_ <;> simp [storing, inside]
  | _ => simp [storing]

theorem storing_afterRead (ret : Except Errno ℕ) : (afterRead ret).storing = 0 := by
  unfold afterRead
  repeat' split
  all_goals rfl

theorem storing_afterWrite (ret : Except Errno ℕ) : (afterWrite ret).storing = 0 := by
  cases ret <;> rfl

end ValidatePc

namespace Kernel

/-- The two ends of one pipe, both open. -/
def Ends (k : Kernel) (readFd writeFd : ℤ) : Prop :=
  ∃ pipe, k.fds.get? readFd = some (.read pipe) ∧ k.fds.get? writeFd = some (.write pipe)

variable (k : Kernel) {readFd writeFd : ℤ}

@[simp] theorem fds_read (fd : ℤ) : (k.read fd).2.fds = k.fds := by
  unfold read
  repeat' split
  all_goals rfl

@[simp] theorem fds_write (capacity : ℕ) (readable : ℕ → Bool) (fd : ℤ) (addr : ℕ) :
    (k.write capacity readable fd addr).2.fds = k.fds := by
  unfold write
  repeat' split
  all_goals rfl

theorem ends_congr {k k' : Kernel} (h : k'.fds = k.fds) :
    k'.Ends readFd writeFd ↔ k.Ends readFd writeFd := by
  rw [Ends, Ends, h]

/-- A new pipe has both its ends open. -/
theorem ends_pipe2 (h : k.Unused readFd writeFd) :
    (k.pipe2 readFd writeFd).Ends readFd writeFd := by
  obtain ⟨-, -, hne, -, -⟩ := h
  refine ⟨k.nextPipe, ?_, ?_⟩
  · rw [pipe2, Table.get?_insert, if_neg (by simpa using hne.symm), Table.get?_insert,
      if_pos (BEq.refl _)]
  · rw [pipe2, Table.get?_insert, if_pos (BEq.refl _)]

end Kernel

namespace Validation

/-- The process before the first call: no pipe is stored. -/
def unopened (k : Kernel) : Validation := ⟨⟨⟨-1, -1⟩, k⟩, []⟩

/-- A pipe is created only while no call is storing the ends of another, and can be created. -/
def Separate (s : Validation) : ValidateAct → Prop
  | .advance _ (.pipe _ _) => count ValidatePc.storing s.calls = 0
  | .advance _ .noPipe => False
  | _ => True

instance (s : Validation) : ∀ act, Decidable (Separate s act)
  | .start _ => inferInstanceAs (Decidable True)
  | .advance _ .go => inferInstanceAs (Decidable True)
  | .advance _ .eintr => inferInstanceAs (Decidable True)
  | .advance _ (.pipe _ _) => inferInstanceAs (Decidable (_ = _))
  | .advance _ .noPipe => inferInstanceAs (Decidable False)

/-- While no call is inside `open_pipe`, the stored descriptors are the two open ends of one pipe,
once there is one. -/
def EndsMatch (s : Validation) : Prop :=
  count ValidatePc.inside s.calls = 0 → s.shared.pipes = ⟨-1, -1⟩ ∨
    s.shared.kernel.Ends s.shared.pipes.readFd s.shared.pipes.writeFd

/-- What a call that is storing the ends of a pipe has open: both, one of them stored already or
not. -/
def Owns (w : Shared) : ValidatePc → Prop
  | .opening (.storeRead readFd writeFd) => w.kernel.Ends readFd writeFd
  | .opening (.storeWrite writeFd) => w.kernel.Ends w.pipes.readFd writeFd
  | _ => True

/-- Whoever is inside `open_pipe` alone has its own ends open; if nobody is, the stored ends
match. -/
structure Handover (w : Shared) (calls : List ValidateCall) : Prop where
  storing : count ValidatePc.storing calls ≤ 1
  owns : ∀ c ∈ calls, 2 ≤ count ValidatePc.inside calls ∨ Owns w c.pc
  stored : count ValidatePc.inside calls = 0 →
    w.pipes = ⟨-1, -1⟩ ∨ w.kernel.Ends w.pipes.readFd w.pipes.writeFd

section Handover

variable {w w' : Shared} {calls : List ValidateCall} {i addr : ℕ} {pc pc' : ValidatePc}

theorem owns_of_storing (w : Shared) (h : pc.storing = 0) : Owns w pc := by
  cases pc with
  | opening at_ =>
    cases at_ with
    | storeRead | storeWrite => cases h
    | _ => trivial
  | _ => trivial

theorem Owns.congr (h : Owns w pc) (hpipes : w'.pipes = w.pipes)
    (hfds : w'.kernel.fds = w.kernel.fds) : Owns w' pc := by
  cases pc with
  | opening at_ =>
    cases at_ with
    | storeRead => exact (Kernel.ends_congr hfds).mpr h
    | storeWrite =>
      rw [Owns, hpipes]
      exact (Kernel.ends_congr hfds).mpr h
    | _ => trivial
  | _ => trivial

/-- Two calls count for two. -/
theorem add_le_count {f : ValidatePc → ℕ} (hf : f (.done false) = 0) {j : ℕ} {c : ValidateCall}
    (hc : calls[i]? = some ⟨addr, pc⟩) (hji : j ≠ i) (hold : calls[j]? = some c) :
    f pc + f c.pc ≤ count f calls := by
  have hset := count_set f hc (.done false)
  have hmem : c ∈ calls.set i ⟨addr, .done false⟩ := by
    refine List.mem_of_getElem? (i := j) ?_
    rw [List.getElem?_set_ne (Ne.symm hji)]
    exact hold
  have := le_count f hmem
  omega

namespace Handover

/-- Beside a call that is storing, no other is. -/
theorem alone (hs : Handover w calls) (hc : calls[i]? = some ⟨addr, pc⟩) (hpc : pc.storing = 1)
    {j : ℕ} {c : ValidateCall} (hji : j ≠ i) (hold : calls[j]? = some c) : Owns w' c.pc := by
  have hle := add_le_count (f := ValidatePc.storing) rfl hc hji hold
  have := hs.storing
  exact owns_of_storing w' (by omega)

/-- The call that went on is looked at, and every other. -/
theorem of_set (hstoring : count ValidatePc.storing (calls.set i ⟨addr, pc'⟩) ≤ 1)
    (hself : 2 ≤ count ValidatePc.inside (calls.set i ⟨addr, pc'⟩) ∨ Owns w' pc')
    (hothers : ∀ (j : ℕ) (c : ValidateCall), j ≠ i → calls[j]? = some c →
      2 ≤ count ValidatePc.inside (calls.set i ⟨addr, pc'⟩) ∨ Owns w' c.pc)
    (hstored : count ValidatePc.inside (calls.set i ⟨addr, pc'⟩) = 0 →
      w'.pipes = ⟨-1, -1⟩ ∨ w'.kernel.Ends w'.pipes.readFd w'.pipes.writeFd) :
    Handover w' (calls.set i ⟨addr, pc'⟩) := by
  refine ⟨hstoring, fun c hmem => ?_, hstored⟩
  obtain ⟨j, hj⟩ := List.mem_iff_getElem?.mp hmem
  by_cases hji : i = j
  · subst hji
    rw [List.getElem?_set_self'] at hj
    obtain ⟨-, -, rfl⟩ := Option.map_eq_some_iff.mp hj
    exact hself
  · rw [List.getElem?_set_ne hji] at hj
    exact hothers j c (Ne.symm hji) hj

/-- A step that stores nothing, and closes and creates nothing. -/
theorem frame (hs : Handover w calls) (hc : calls[i]? = some ⟨addr, pc⟩)
    (hpipes : w'.pipes = w.pipes) (hfds : w'.kernel.fds = w.kernel.fds)
    (hinside : pc.inside ≤ pc'.inside) (hpc : pc.storing = 0) (hpc' : pc'.storing = 0) :
    Handover w' (calls.set i ⟨addr, pc'⟩) := by
  have hcountInside := count_set ValidatePc.inside hc pc'
  have hcountStoring := count_set ValidatePc.storing hc pc'
  have hbefore := hs.storing
  refine of_set (by omega) (Or.inr (owns_of_storing w' hpc')) (fun j c _ hold => ?_) fun hnone => ?_
  · rcases hs.owns c (List.mem_of_getElem? hold) with htwo | howns
    · exact Or.inl (by omega)
    · exact Or.inr (howns.congr hpipes hfds)
  · rw [hpipes, Kernel.ends_congr hfds]
    exact hs.stored (by omega)

/-- A call inside `open_pipe` closes a descriptor: if another is storing, there are two of them. -/
theorem close (hs : Handover w calls) (hc : calls[i]? = some ⟨addr, pc⟩) (hin : pc.inside = 1)
    (hin' : pc'.inside = 1) (hpc : pc.storing = 0) (hpc' : pc'.storing = 0) :
    Handover w' (calls.set i ⟨addr, pc'⟩) := by
  have hcountInside := count_set ValidatePc.inside hc pc'
  have hcountStoring := count_set ValidatePc.storing hc pc'
  have hself := le_count ValidatePc.inside (List.mem_of_getElem? hc)
  have hbefore := hs.storing
  refine of_set (by omega) (Or.inr (owns_of_storing w' hpc')) (fun j c hji hold => ?_)
    fun hnone => ?_
  · by_cases hzero : c.pc.storing = 0
    · exact Or.inr (owns_of_storing w' hzero)
    · have hle := add_le_count (f := ValidatePc.inside) rfl hc hji hold
      have := c.pc.storing_le_inside
      exact Or.inl (by omega)
  · simp only at hself
    omega

/-- A call creates a pipe while nobody is storing: it has both ends of its own. -/
theorem create (hc : calls[i]? = some ⟨addr, .opening .create⟩)
    (hnobody : count ValidatePc.storing calls = 0) {readFd writeFd : ℤ}
    (hunused : w.kernel.Unused readFd writeFd) :
    Handover { w with kernel := w.kernel.pipe2 readFd writeFd }
      (calls.set i ⟨addr, .opening (.storeRead readFd writeFd)⟩) := by
  have hcountInside : _ + 1 = _ + 1 :=
    count_set ValidatePc.inside hc (.opening (.storeRead readFd writeFd))
  have hcountStoring : _ + 0 = _ + 1 :=
    count_set ValidatePc.storing hc (.opening (.storeRead readFd writeFd))
  have hself : 1 ≤ count ValidatePc.inside calls :=
    le_count ValidatePc.inside (List.mem_of_getElem? hc)
  refine of_set (by omega) (Or.inr (Kernel.ends_pipe2 _ hunused)) (fun j c _ hold => ?_)
    fun hnone => by omega
  have hle := le_count ValidatePc.storing (List.mem_of_getElem? hold)
  exact Or.inr (owns_of_storing _ (by omega))

/-- The storing call stores the first end. -/
theorem storeRead (hs : Handover w calls) {readFd writeFd : ℤ}
    (hc : calls[i]? = some ⟨addr, .opening (.storeRead readFd writeFd)⟩) :
    Handover { w with pipes := { w.pipes with readFd := readFd } }
      (calls.set i ⟨addr, .opening (.storeWrite writeFd)⟩) := by
  have hcountInside : _ + 1 = _ + 1 :=
    count_set ValidatePc.inside hc (.opening (.storeWrite writeFd))
  have hcountStoring : _ + 1 = _ + 1 :=
    count_set ValidatePc.storing hc (.opening (.storeWrite writeFd))
  have hself : 1 ≤ count ValidatePc.inside calls :=
    le_count ValidatePc.inside (List.mem_of_getElem? hc)
  have hbefore := hs.storing
  refine of_set (by omega) ?_ (fun j c hji hold => Or.inr (hs.alone hc rfl hji hold))
    fun hnone => by omega
  rcases hs.owns _ (List.mem_of_getElem? hc) with htwo | howns
  · exact Or.inl (by omega)
  · exact Or.inr howns

/-- The storing call stores the second end and leaves: if it was alone, the ends match. -/
theorem storeWrite (hs : Handover w calls) {writeFd : ℤ}
    (hc : calls[i]? = some ⟨addr, .opening (.storeWrite writeFd)⟩) :
    Handover { w with pipes := { w.pipes with writeFd := writeFd } }
      (calls.set i ⟨addr, .loadWrite⟩) := by
  have hcountInside : _ + 1 = _ + 0 := count_set ValidatePc.inside hc .loadWrite
  have hcountStoring : _ + 1 = _ + 0 := count_set ValidatePc.storing hc .loadWrite
  have hbefore := hs.storing
  refine of_set (by omega) (Or.inr trivial)
    (fun j c hji hold => Or.inr (hs.alone hc rfl hji hold)) fun hnone => ?_
  rcases hs.owns _ (List.mem_of_getElem? hc) with htwo | howns
  · omega
  · exact Or.inr howns

/-- A call begins. -/
theorem start (hs : Handover w calls) (addr : ℕ) : Handover w (calls ++ [.new addr]) := by
  have hnew : (ValidateCall.new addr).pc.inside = 0 ∧ (ValidateCall.new addr).pc.storing = 0 := by
    by_cases haddr : addr = 0 <;>
      simp [ValidateCall.new, haddr, ValidatePc.inside, ValidatePc.storing]
  refine ⟨?_, ?_, ?_⟩
  · rw [count_concat, hnew.2]
    exact hs.storing
  · intro c hmem
    rw [count_concat, hnew.1, Nat.add_zero]
    rcases List.mem_append.mp hmem with hold | hlast
    · exact hs.owns c hold
    · rw [List.mem_singleton.mp hlast]
      exact Or.inr (owns_of_storing w hnew.2)
  · rw [count_concat, hnew.1, Nat.add_zero]
    exact hs.stored

/-- **Every step hands the ends over.** -/
theorem step {capacity : ℕ} {readable : ℕ → Bool} {s s' : Validation} {act : ValidateAct}
    (hs : Handover s.shared s.calls) (hact : Separate s act)
    (h : s.step capacity readable act = some s') : Handover s'.shared s'.calls := by
  cases step_spec h with
  | @start addr => exact hs.start addr
  | @advance i answer addr pc w pc' hc hnext =>
    cases hnext with
    | loadSome | readAgain | loadWrite | writeAgain => exact hs.frame hc rfl rfl le_rfl rfl rfl
    | loadNone => exact hs.frame hc rfl rfl (Nat.zero_le _) rfl rfl
    | openLoadRead | openLoadWrite => exact hs.frame hc rfl rfl le_rfl rfl rfl
    | read =>
      exact hs.frame hc rfl (Kernel.fds_read ..) (Nat.zero_le _) rfl
        (ValidatePc.storing_afterRead _)
    | write =>
      exact hs.frame hc rfl (Kernel.fds_write ..) (Nat.zero_le _) rfl
        (ValidatePc.storing_afterWrite _)
    | closeRead | closeWrite => exact hs.close hc rfl rfl rfl rfl
    | create hunused => exact create hc hact hunused
    | createFails => exact hact.elim
    | storeRead => exact hs.storeRead hc
    | storeWrite => exact hs.storeWrite hc

end Handover

/-- **The stored ends match in every interleaving** in which every pipe can be created, and none
is created between another call's creation and its last store. -/
theorem ends_match {capacity : ℕ} {readable : ℕ → Bool} {k : Kernel} {s : Validation}
    (h : Machine.Reach (step capacity readable) Separate (unopened k) s) : s.EndsMatch := by
  have hstart : Handover (unopened k).shared (unopened k).calls :=
    ⟨Nat.zero_le 1, fun c hc => absurd hc List.not_mem_nil, fun _ => Or.inl rfl⟩
  have hs : Handover s.shared s.calls :=
    h.invariant (I := fun s => Handover s.shared s.calls) hstart
      fun _ _ _ hs hact hstep => hs.step hact hstep
  exact hs.stored

end Handover

/-- No descriptor is open. -/
def emptyKernel : Kernel := ⟨Table.empty, fun _ => 0, 0⟩

/-- The steps of a call from its beginning to the creation of a pipe, when none is stored. -/
def toCreate (i : ℕ) : List ValidateAct := List.replicate 5 (.advance i .go)

/-- Two calls find no pipe; the second creates its own when the first has stored both ends. -/
def oneAfterTheOther : List ValidateAct :=
  [.start 4096, .start 4096] ++ toCreate 0 ++ toCreate 1 ++
    [.advance 0 (.pipe 3 4), .advance 0 .go, .advance 0 .go, .advance 1 (.pipe 5 6),
      .advance 1 .go, .advance 1 .go]

theorem ends_match_after : ∃ s : Validation,
    Machine.run (step 65536 fun _ => true) (unopened emptyKernel) oneAfterTheOther = some s ∧
    s.shared.pipes = ⟨5, 6⟩ ∧ s.EndsMatch := by
  have hseparate : Machine.Throughout (step 65536 fun _ => true) Separate (unopened emptyKernel)
      oneAfterTheOther := by decide +kernel
  exact ⟨_, rfl, rfl, ends_match (Machine.Reach.of_throughout hseparate rfl)⟩

/-- Two calls find no pipe and open one each; their stores are interleaved, and what is left is
the read end of the one and the write end of the other. -/
theorem ends_mixed : ∃ s : Validation,
    Machine.run (step 65536 fun _ => true) (unopened emptyKernel)
      ([.start 4096, .start 4096] ++ toCreate 0 ++ toCreate 1 ++
        [.advance 0 (.pipe 3 4), .advance 1 (.pipe 5 6), .advance 0 .go, .advance 1 .go,
          .advance 1 .go, .advance 0 .go, .advance 0 .go, .advance 0 .go, .advance 1 .go,
          .advance 1 .go]) = some s ∧
    s.calls = [⟨4096, .done true⟩, ⟨4096, .done true⟩] ∧ s.shared.pipes = ⟨5, 4⟩ ∧
    s.shared.kernel.fds.get? 5 = some (.read 1) ∧ s.shared.kernel.fds.get? 4 = some (.write 0) ∧
    ¬s.EndsMatch := by
  refine ⟨_, rfl, rfl, rfl, rfl, rfl, fun h => ?_⟩
  rcases h rfl with hnone | ⟨pipe, hread, hwrite⟩
  · cases hnone
  · cases hread
    cases hwrite

end Validation

end Rpprof
