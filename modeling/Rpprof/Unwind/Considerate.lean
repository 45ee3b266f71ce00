import Rpprof.Unwind.Recovery

/-!
# An application that closes its own

Where the application closes only what it has opened, and pipes can be made, the numbers that the
calls know are in use from the moment they are known.  So none of them can be given away, nothing
hits the calls, and every answer is right.

## Main definitions

* `Hosted.Settled` — there is no pipe yet, or its ends are open.
* `Hosted.Calm` — what a considerate run keeps.

## Main results

* `Hosted.Calm.clear` — no number that is known can be given away.
* `Hosted.truthful_of_reach` — **every answer is right in a considerate run**.
-/

namespace Rpprof

namespace Hosted

variable {capacity : ℕ} {readable : ℕ → Bool} {s s' : Hosted}
variable {w w' : Shared} {own : Kernel} {addr : ℕ} {pc pc' : ValidatePc} {answer : Answer}

/-- Both are open. -/
def Both (k : Kernel) (readFd writeFd : ℤ) : Prop :=
  k.fds.get? readFd ≠ none ∧ k.fds.get? writeFd ≠ none

/-- There is no pipe yet, or its ends are open. -/
def Settled (w : Shared) : ValidatePc → Prop
  | .done _ | .loadRead => w.pipes = ⟨-1, -1⟩ ∨ Both w.kernel w.pipes.readFd w.pipes.writeFd
  | .read _ | .loadWrite | .write _ => Both w.kernel w.pipes.readFd w.pipes.writeFd
  | .opening (.storeRead readFd writeFd) =>
    w.pipes = ⟨-1, -1⟩ ∧ Both w.kernel readFd writeFd
  | .opening (.storeWrite writeFd) =>
    w.pipes.writeFd = -1 ∧ Both w.kernel w.pipes.readFd writeFd
  | .opening _ => w.pipes = ⟨-1, -1⟩

/-- So the application cannot be given a number that is known. -/
theorem Kept.open_of_known (h : Kept w pc own) (hsettled : Settled w pc) :
    ∀ fd ∈ known w pc, fd = -1 ∨ w.kernel.fds.get? fd ≠ none := by
  intro fd hfd
  have hheld := h.held
  simp only [known, List.mem_cons] at hfd
  cases pc with
  | done _ | loadRead =>
    rcases hsettled with hpipes | ⟨hread, hwrite⟩
    · simp only [hpipes, ValidatePc.fds, List.not_mem_nil, or_false, or_self] at hfd
      exact Or.inl hfd
    · simp only [ValidatePc.fds, List.not_mem_nil, or_false] at hfd
      rcases hfd with rfl | rfl
      · exact Or.inr hread
      · exact Or.inr hwrite
  | read fd' | write fd' =>
    obtain ⟨hread, hwrite⟩ := hsettled
    simp only [ValidatePc.fds, List.mem_singleton, show fd' = _ from hheld] at hfd
    rcases hfd with rfl | rfl | rfl
    all_goals exact Or.inr ‹_›
  | loadWrite =>
    obtain ⟨hread, hwrite⟩ := hsettled
    simp only [ValidatePc.fds, List.not_mem_nil, or_false] at hfd
    rcases hfd with rfl | rfl
    all_goals exact Or.inr ‹_›
  | opening at_ =>
    cases at_ with
    | storeRead readFd writeFd =>
      obtain ⟨hpipes, hread, hwrite⟩ := hsettled
      simp only [hpipes, ValidatePc.fds, List.mem_cons, List.not_mem_nil, or_false] at hfd
      rcases hfd with rfl | rfl | rfl | rfl
      · exact Or.inl rfl
      · exact Or.inl rfl
      · exact Or.inr hread
      · exact Or.inr hwrite
    | storeWrite writeFd =>
      obtain ⟨hpipes, hread, hwrite⟩ := hsettled
      simp only [hpipes, ValidatePc.fds, List.mem_singleton] at hfd
      rcases hfd with rfl | rfl | rfl
      · exact Or.inr hread
      · exact Or.inl rfl
      · exact Or.inr hwrite
    | closeRead fd' =>
      have hpipes : w.pipes = ⟨-1, -1⟩ := hsettled
      have hfd' : fd' = w.pipes.readFd := hheld
      simp only [hfd', hpipes, ValidatePc.fds, List.mem_singleton, or_self] at hfd
      exact Or.inl hfd
    | closeWrite fd' =>
      have hpipes : w.pipes = ⟨-1, -1⟩ := hsettled
      simp only [hheld.1, hpipes, ValidatePc.fds, List.mem_singleton, or_self] at hfd
      exact Or.inl hfd
    | loadRead | loadWrite | create =>
      have hpipes : w.pipes = ⟨-1, -1⟩ := hsettled
      simp only [hpipes, ValidatePc.fds, List.not_mem_nil, or_false, or_self] at hfd
      exact Or.inl hfd

/-- A call that meets a pipe keeps it. -/
theorem Kept.settled_next (h : Kept w pc own) (hsettled : Settled w pc) (hpipe : answer ≠ .noPipe)
    (hnext : pc.Next capacity readable w addr answer w' pc') : Settled w' pc' := by
  cases hnext with
  | loadSome hfd =>
    rcases hsettled with hpipes | hboth
    · rw [hpipes] at hfd
      exact absurd hfd (by decide)
    · exact hboth
  | loadNone hfd =>
    rcases hsettled with hpipes | ⟨hread, -⟩
    · exact hpipes
    · obtain ⟨e, he⟩ := Option.ne_none_iff_exists'.mp hread
      exact absurd (h.holds.nonneg _ _ he) (not_le.mpr hfd)
  | read =>
    rcases h.read_cases with ⟨-, -, hnone | hnone⟩ | ⟨hafter, -⟩
    · exact absurd hnone hsettled.1
    · exact absurd hnone hsettled.2
    · rw [hafter]
      show Both _ _ _
      rw [Both, Kernel.fds_read]
      exact hsettled
  | readAgain | openLoadRead | closeRead | openLoadWrite | closeWrite => exact hsettled
  | create hunused =>
    have hne : ¬_ = _ := fun heq => hunused.2.2.1 heq.symm
    refine ⟨hsettled, ?_, ?_⟩
    · simp [Kernel.get?_pipe2, hne]
    · simp [Kernel.get?_pipe2]
  | createFails => exact absurd rfl hpipe
  | storeRead => exact ⟨congrArg Pipes.writeFd hsettled.1, hsettled.2⟩
  | storeWrite => exact hsettled.2
  | loadWrite => exact hsettled
  | write =>
    obtain ⟨result, hresult⟩ := ValidatePc.exists_afterWrite
      (w.kernel.write capacity readable _ addr).1
    rw [hresult]
    refine Or.inr ?_
    rw [Both, Kernel.fds_write]
    exact hsettled
  | writeAgain => exact hsettled

/-- The application leaves what is known open. -/
theorem Settled.congr {k : Kernel} (h : Settled w pc)
    (hfds : ∀ fd ∈ known w pc, k.fds.get? fd = w.kernel.fds.get? fd) :
    Settled { w with kernel := k } pc := by
  have hread := hfds w.pipes.readFd List.mem_cons_self
  have hwrite := hfds w.pipes.writeFd (List.mem_cons_of_mem _ List.mem_cons_self)
  have hboth : Both w.kernel w.pipes.readFd w.pipes.writeFd →
      Both k w.pipes.readFd w.pipes.writeFd := by
    rw [Both, Both, hread, hwrite]
    exact id
  cases pc with
  | done _ | loadRead => exact h.imp_right hboth
  | read _ | loadWrite | write _ => exact hboth h
  | opening at_ =>
    cases at_ with
    | storeRead readFd writeFd =>
      refine ⟨h.1, ?_⟩
      rw [Both, hfds readFd (by simp [known, ValidatePc.fds]),
        hfds writeFd (by simp [known, ValidatePc.fds])]
      exact h.2
    | storeWrite writeFd =>
      refine ⟨h.1, ?_⟩
      rw [Both, hread, hfds writeFd (by simp [known, ValidatePc.fds])]
      exact h.2
    | loadRead | closeRead _ | loadWrite | closeWrite _ | create => exact h

variable (readable) in
/-- What a considerate run keeps: nothing has hit the calls. -/
structure Calm (s : Hosted) : Prop where
  inv : Inv readable s
  settled : Settled s.shared s.pc
  unhit : s.hits = 0

namespace Calm

/-- **No number that is known can be given away.** -/
theorem clear (h : Calm readable s) {act : HostedAct}
    (hstep : s.step capacity readable act = some s') : Clear s act := by
  cases act with
  | pipe readFd writeFd =>
    rw [step, Option.ite_none_right_eq_some] at hstep
    obtain ⟨hread, hwrite, -, hreadFd, hwriteFd⟩ := hstep.1
    have hopen := h.inv.kept.open_of_known h.settled
    refine ⟨fun hmem => ?_, fun hmem => ?_⟩
    · rcases hopen _ hmem with rfl | hne
      · exact absurd hread (by decide)
      · exact hne hreadFd
    · rcases hopen _ hmem with rfl | hne
      · exact absurd hwrite (by decide)
      · exact hne hwriteFd
  | call _ | go _ | close _ | use _ _ => trivial

/-- **Every considerate step keeps it.** -/
theorem step (hcap : checkLength ≤ capacity) (h : Calm readable s) {act : HostedAct}
    (hact : Considerate s act) (hstep : s.step capacity readable act = some s') :
    Calm readable s' := by
  have hinv : Inv readable s' := h.inv.step hcap (h.clear hstep) hstep
  have hclear := h.clear hstep
  obtain ⟨⟨hkept, -, -⟩, hsettled, hunhit⟩ := h
  cases act with
  | call addr =>
    rw [Hosted.step, Option.ite_none_right_eq_some, Option.some.injEq] at hstep
    obtain ⟨hover, rfl⟩ := hstep
    refine ⟨hinv, ?_, hunhit⟩
    cases hpc : s.pc with
    | done result =>
      rw [hpc] at hsettled
      rw [ValidateCall.new]
      split
      · exact hsettled
      · exact hsettled
    | loadRead | read | opening | loadWrite | write =>
      rw [hpc] at hover
      cases hover
  | go answer =>
    obtain ⟨⟨w, pc⟩, hr, rfl⟩ := Option.map_eq_some_iff.mp hstep
    refine ⟨hinv, hkept.settled_next hsettled hact (ValidatePc.next_spec hr), ?_⟩
    simp [hunhit, show answer ≠ .noPipe from hact]
  | pipe readFd writeFd =>
    rw [Hosted.step, Option.ite_none_right_eq_some, Option.some.injEq] at hstep
    obtain ⟨hunused, rfl⟩ := hstep
    refine ⟨hinv, hsettled.congr fun fd hfd => ?_, hunhit⟩
    have hwrite : ¬writeFd = fd := fun heq => hclear.2 (heq ▸ hfd)
    have hread : ¬readFd = fd := fun heq => hclear.1 (heq ▸ hfd)
    rw [Kernel.get?_pipe2, if_neg hwrite, if_neg hread]
  | close fd =>
    cases hstep
    refine ⟨hinv, hsettled.congr fun fd' hfd' => ?_, ?_⟩
    · exact get?_close_of_not_foreign (hkept.mine fd' hfd') hact
    · simp [hunhit, show s.foreign fd = false from hact]
  | use fd n =>
    obtain ⟨e, he, rfl⟩ := Option.map_eq_some_iff.mp hstep
    refine ⟨hinv, hsettled.congr fun fd' _ => ?_, hunhit⟩
    rw [Kernel.fds_use]

end Calm

/-- **Every answer is right**, and the application is not disturbed, in any run in which it closes
only its own and pipes can be made for the calls: it may open, use and close its own between any
two steps of a call. -/
theorem truthful_of_reach {k : Kernel} (hcap : checkLength ≤ capacity) (hk : k.Holds k)
    (hreach : Machine.Reach (step capacity readable) Considerate (init k) s) :
    s.Undisturbed ∧ s.Tidy ∧ ∀ a ∈ s.answered, a.2 = truth readable a.1 := by
  have hcalm : Calm readable s :=
    hreach.invariant ⟨Inv.init hk, Or.inl rfl, rfl⟩ fun _ _ _ h hact hstep => h.step hcap hact hstep
  refine ⟨hcalm.inv.undisturbed, hcalm.inv.kept.tidy, fun a ha => ?_⟩
  have hnone : wrong readable s.answered = 0 :=
    Nat.le_zero.mp (hcalm.unhit ▸ hcalm.inv.wrong_le_hits)
  have hright := List.countP_eq_zero.mp hnone a ha
  simpa using hright

/-- The application makes a pipe while the call makes its own, and closes one end of it. -/
def sideBySide : List HostedAct :=
  [.call 4096] ++ goes 5 ++ [.pipe 5 6, .go (.pipe 7 8), .use 6 3, .close 3] ++ goes 2 ++
    [.pipe 3 9] ++ goes 2 ++ [.call 8192] ++ goes 4

theorem truthful_of_reach_sideBySide :
    ∃ s, Machine.run (step 65536 Validation.lowMemory) (init ownPipe) sideBySide = some s ∧
      s.answered = [(4096, true), (8192, false)] ∧ s.own.fds.size = 5 ∧
      s.Undisturbed ∧ s.Tidy ∧ ∀ a ∈ s.answered, a.2 = truth Validation.lowMemory a.1 := by
  have hvalues : (Machine.run (step 65536 Validation.lowMemory) (init ownPipe) sideBySide).map
      (fun s => (s.answered, s.own.fds.size)) = some ([(4096, true), (8192, false)], 5) := by
    decide +kernel
  have hact : Machine.Throughout (step 65536 Validation.lowMemory) Considerate (init ownPipe)
      sideBySide := by
    decide +kernel
  obtain ⟨s, hs, hpair⟩ := Option.map_eq_some_iff.mp hvalues
  obtain ⟨hanswered, hsize⟩ := Prod.mk.inj hpair
  exact ⟨s, hs, hanswered, hsize, truthful_of_reach (by decide) holds_ownPipe
    (Machine.Reach.of_throughout hact hs)⟩

end Hosted

end Rpprof
