import Rpprof.Unwind.Backlog
import Rpprof.Unwind.Ends

/-!
# The pipe among the descriptors of the process

The handler validates addresses with the profiler locked, so one call of `validate` is under way at
a time.  Its pipe lives in a process that has descriptors of its own: it opens and closes them, it
uses its pipes, and it may close what is not its own, as a daemon does when it starts.  All this may
happen between any two steps of a call.

## Main definitions

* `Hosted`, `Hosted.step` — the calls and the application.
* `Hosted.Clear` — numbers that the calls know are not given away.
* `Hosted.Considerate` — the application closes its own, and pipes can be made.
* `Kernel.Holds` — what the application has, of all that is open.

## Main results

* `Kernel.Holds.pipe2Both` and its neighbours — what each system call keeps of that.
-/

namespace Rpprof

/-- The pipe of a descriptor. -/
def PipeEnd.pipe : PipeEnd → ℕ
  | .read pipe | .write pipe => pipe

@[simp] theorem PipeEnd.pipe_read (pipe : ℕ) : (read pipe).pipe = pipe := rfl

@[simp] theorem PipeEnd.pipe_write (pipe : ℕ) : (write pipe).pipe = pipe := rfl

/-! ### The application -/

namespace Kernel

/-- The application uses a pipe of its own: it puts bytes in at one end, and takes them out at the
other. -/
def use (k : Kernel) (e : PipeEnd) (n : ℕ) : Kernel :=
  match e with
  | .read pipe => { k with bytes := Function.update k.bytes pipe (k.bytes pipe - n) }
  | .write pipe => { k with bytes := Function.update k.bytes pipe (k.bytes pipe + n) }

@[simp] theorem fds_use (k : Kernel) (e : PipeEnd) (n : ℕ) : (k.use e n).fds = k.fds := by
  cases e <;> rfl

@[simp] theorem nextPipe_use (k : Kernel) (e : PipeEnd) (n : ℕ) :
    (k.use e n).nextPipe = k.nextPipe := by
  cases e <;> rfl

theorem get?_close (k : Kernel) (fd fd' : ℤ) :
    (k.close fd).fds.get? fd' = if fd = fd' then none else k.fds.get? fd' := by
  simp [close, Table.get?_erase]

theorem get?_close_anti (k : Kernel) (fd fd' : ℤ) :
    (k.close fd).fds.get? fd' = none ∨ (k.close fd).fds.get? fd' = k.fds.get? fd' := by
  rw [get?_close]
  split
  · exact Or.inl rfl
  · exact Or.inr rfl

theorem get?_pipe2 (k : Kernel) (readFd writeFd fd : ℤ) :
    (k.pipe2 readFd writeFd).fds.get? fd =
      if writeFd = fd then some (.write k.nextPipe)
      else if readFd = fd then some (.read k.nextPipe) else k.fds.get? fd := by
  simp [pipe2, Table.get?_insert]

theorem bytes_use_of_ne (k : Kernel) {e : PipeEnd} {pipe : ℕ} (n : ℕ) (h : pipe ≠ e.pipe) :
    (k.use e n).bytes pipe = k.bytes pipe := by
  cases e <;> exact Function.update_of_ne h _ _

theorem bytes_use_pipe {k k' : Kernel} {e : PipeEnd} (h : k.bytes e.pipe = k'.bytes e.pipe)
    (n : ℕ) : (k.use e n).bytes e.pipe = (k'.use e n).bytes e.pipe := by
  cases e <;> simp_all [use]

end Kernel

/-- The descriptors that a call holds. -/
def ValidatePc.fds : ValidatePc → List ℤ
  | read fd | write fd | opening (.closeRead fd) | opening (.closeWrite fd) => [fd]
  | opening (.storeRead readFd writeFd) => [readFd, writeFd]
  | opening (.storeWrite writeFd) => [writeFd]
  | _ => []

/-- The answer to be recorded when a call has returned. -/
def ValidatePc.answer (addr : ℕ) : ValidatePc → List (ℕ × Bool)
  | done result => [(addr, result)]
  | _ => []

/-- The call has returned. -/
def ValidatePc.over : ValidatePc → Bool
  | done _ => true
  | _ => false

/-- A call is over when it has written. -/
theorem ValidatePc.exists_afterWrite (ret : Except Errno ℕ) :
    ∃ result, afterWrite ret = done result := by
  cases ret with
  | ok n => exact ⟨_, rfl⟩
  | error e => exact ⟨_, rfl⟩

theorem ValidatePc.Next.done_of_noPipe {capacity : ℕ} {readable : ℕ → Bool} {w w' : Shared}
    {addr : ℕ} {pc pc' : ValidatePc}
    (h : Next capacity readable w addr pc .noPipe w' pc') : pc' = done false := by
  cases h
  rfl

/-- The calls, one after the other, and the application. -/
structure Hosted where
  shared : Shared
  /-- The call under way, or the last one. -/
  addr : ℕ
  pc : ValidatePc
  /-- The answers so far. -/
  answered : List (ℕ × Bool)
  /-- What the application has made of its own descriptors and pipes. -/
  own : Kernel
  /-- How often a descriptor that was not its own was closed by it, or a pipe could not be made. -/
  hits : ℕ

/-- What happens next. -/
inductive HostedAct where
  /-- The handler validates an address. -/
  | call (addr : ℕ)
  /-- The call goes on. -/
  | go (answer : Answer)
  /-- The application makes a pipe. -/
  | pipe (readFd writeFd : ℤ)
  /-- It closes a descriptor. -/
  | close (fd : ℤ)
  /-- It uses one of its own. -/
  | use (fd : ℤ) (n : ℕ)
deriving DecidableEq, Repr

namespace Hosted

variable (capacity : ℕ) (readable : ℕ → Bool)

/-- No call has been made, and all that is open belongs to the application. -/
def init (k : Kernel) : Hosted := ⟨⟨⟨-1, -1⟩, k⟩, 0, .done false, [], k, 0⟩

/-- A descriptor is open, and not the application's. -/
def foreign (s : Hosted) (fd : ℤ) : Bool :=
  (s.own.fds.get? fd).isNone && (s.shared.kernel.fds.get? fd).isSome

/-- One step. -/
def step (s : Hosted) : HostedAct → Option Hosted
  | .call addr =>
    if s.pc.over then
      some { s with
        addr := addr
        pc := (ValidateCall.new addr).pc
        answered := s.answered ++ (ValidateCall.new addr).pc.answer addr }
    else none
  | .go answer =>
    (s.pc.next capacity readable s.shared s.addr answer).map fun r =>
      { s with
        shared := r.1
        pc := r.2
        answered := s.answered ++ r.2.answer s.addr
        hits := s.hits + if answer = .noPipe then 1 else 0 }
  | .pipe readFd writeFd =>
    if s.shared.kernel.Unused readFd writeFd then
      some { s with
        shared := { s.shared with kernel := s.shared.kernel.pipe2 readFd writeFd }
        own := { s.own with nextPipe := s.shared.kernel.nextPipe }.pipe2 readFd writeFd }
    else none
  | .close fd =>
    some { s with
      shared := { s.shared with kernel := s.shared.kernel.close fd }
      own := s.own.close fd
      hits := s.hits + if s.foreign fd then 1 else 0 }
  | .use fd n =>
    (s.own.fds.get? fd).map fun e =>
      { s with
        shared := { s.shared with kernel := s.shared.kernel.use e n }
        own := s.own.use e n }

/-- The numbers that `validate` still knows: those stored, and those the call holds. -/
def known (w : Shared) (pc : ValidatePc) : List ℤ := w.pipes.readFd :: w.pipes.writeFd :: pc.fds

/-- A number that is known is not given to the application. -/
def Clear (s : Hosted) : HostedAct → Prop
  | .pipe readFd writeFd => readFd ∉ known s.shared s.pc ∧ writeFd ∉ known s.shared s.pc
  | _ => True

instance (s : Hosted) : ∀ act, Decidable (Clear s act)
  | .pipe _ _ => inferInstanceAs (Decidable (_ ∧ _))
  | .call _ | .go _ | .close _ | .use _ _ => inferInstanceAs (Decidable True)

/-- The application closes only its own, and a pipe can be made for the calls. -/
def Considerate (s : Hosted) : HostedAct → Prop
  | .go answer => answer ≠ .noPipe
  | .close fd => s.foreign fd = false
  | _ => True

instance (s : Hosted) : ∀ act, Decidable (Considerate s act)
  | .go _ => inferInstanceAs (Decidable (_ ≠ _))
  | .close _ => inferInstanceAs (Decidable (_ = _))
  | .call _ | .pipe _ _ | .use _ _ => inferInstanceAs (Decidable True)

/-- What `validate` is to answer. -/
def truth (addr : ℕ) : Bool := decide (addr ≠ 0) && Kernel.readableAt readable addr

/-- How many answers are wrong. -/
def wrong (answered : List (ℕ × Bool)) : ℕ := answered.countP fun a => a.2 != truth readable a.1

/-- Each descriptor of the application is as it has left it, and so is its pipe. -/
def Undisturbed (s : Hosted) : Prop :=
  ∀ fd e, s.own.fds.get? fd = some e → s.shared.kernel.fds.get? fd = some e ∧
    s.shared.kernel.bytes e.pipe = s.own.bytes e.pipe

/-- What is open is the application's, or known. -/
def Tidy (s : Hosted) : Prop :=
  ∀ fd e, s.shared.kernel.fds.get? fd = some e → s.own.fds.get? fd = some e ∨
    fd ∈ known s.shared s.pc

end Hosted

/-! ### Ours and theirs -/

/-- What the application has, of all that is open. -/
structure Kernel.Holds (k own : Kernel) : Prop where
  nonneg : ∀ fd e, k.fds.get? fd = some e → 0 ≤ fd
  made : ∀ fd e, k.fds.get? fd = some e → e.pipe < k.nextPipe
  same : ∀ fd e, own.fds.get? fd = some e → k.fds.get? fd = some e ∧
    k.bytes e.pipe = own.bytes e.pipe
  /-- A pipe is the application's altogether or not at all. -/
  apart : ∀ fd e fd' e', own.fds.get? fd = some e → own.fds.get? fd' = none →
    k.fds.get? fd' = some e' → e'.pipe ≠ e.pipe

namespace Kernel.Holds

variable {k k' own : Kernel} {fd readFd writeFd : ℤ} {e : PipeEnd}

/-- All is the application's. -/
theorem self (hnonneg : ∀ fd e, k.fds.get? fd = some e → 0 ≤ fd)
    (hmade : ∀ fd e, k.fds.get? fd = some e → e.pipe < k.nextPipe) : Holds k k where
  nonneg := hnonneg
  made := hmade
  same := fun _ _ h => ⟨h, rfl⟩
  apart := fun _ _ _ _ _ hnone hsome => by rw [hnone] at hsome; cases hsome

/-- What changes only the bytes in a pipe that is not the application's. -/
theorem bytes (h : Holds k own) (hfds : k'.fds = k.fds) (hnext : k'.nextPipe = k.nextPipe)
    (hown : own.fds.get? fd = none) (hfd : k.fds.get? fd = some e)
    (hbytes : ∀ pipe, pipe ≠ e.pipe → k'.bytes pipe = k.bytes pipe) : Holds k' own where
  nonneg := by rw [hfds]; exact h.nonneg
  made := by rw [hfds, hnext]; exact h.made
  same := by
    intro fd' e' he'
    rw [hfds, hbytes _ (h.apart _ _ _ _ he' hown hfd).symm]
    exact h.same fd' e' he'
  apart := by rw [hfds]; exact h.apart

/-- A read from a descriptor that is not the application's. -/
theorem read (h : Holds k own) (hown : own.fds.get? fd = none) : Holds (k.read fd).2 own := by
  unfold Kernel.read
  split
  · next pipe hfd =>
    split
    · exact h.bytes rfl rfl hown hfd fun p hp =>
        Function.update_of_ne hp _ _
    · split <;> exact h
  · exact h

/-- A write to one. -/
theorem write (h : Holds k own) (capacity : ℕ) (readable : ℕ → Bool) (addr : ℕ)
    (hown : own.fds.get? fd = none) : Holds (k.write capacity readable fd addr).2 own := by
  unfold Kernel.write
  split
  · next pipe hfd =>
    split
    · exact h
    · split
      · exact h
      · split
        · exact h.bytes rfl rfl hown hfd fun p hp =>
            Function.update_of_ne hp _ _
        · exact h
  · exact h

/-- What is open after a close was open before. -/
theorem of_close {fd' : ℤ} (h : (k.close fd).fds.get? fd' = some e) :
    fd ≠ fd' ∧ k.fds.get? fd' = some e := by
  rw [get?_close] at h
  split at h
  · cases h
  · next hne => exact ⟨hne, h⟩

/-- One that is not the application's is closed. -/
theorem close (h : Holds k own) (hown : own.fds.get? fd = none) : Holds (k.close fd) own where
  nonneg := fun fd' e' he' => h.nonneg fd' e' (of_close he').2
  made := fun fd' e' he' => h.made fd' e' (of_close he').2
  same := by
    intro fd' e' he'
    have hne : fd ≠ fd' := by
      rintro rfl
      rw [he'] at hown
      cases hown
    rw [get?_close, if_neg hne]
    exact h.same fd' e' he'
  apart := fun fd₁ e₁ fd₂ e₂ h₁ h₂ he₂ => h.apart _ _ _ _ h₁ h₂ (of_close he₂).2

/-- The application closes one. -/
theorem closeBoth (h : Holds k own) (fd : ℤ) : Holds (k.close fd) (own.close fd) where
  nonneg := fun fd' e' he' => h.nonneg fd' e' (of_close he').2
  made := fun fd' e' he' => h.made fd' e' (of_close he').2
  same := by
    intro fd' e' he'
    obtain ⟨hne, hfd'⟩ := of_close he'
    rw [get?_close, if_neg hne]
    exact h.same fd' e' hfd'
  apart := by
    intro fd₁ e₁ fd₂ e₂ h₁ h₂ he₂
    obtain ⟨hne, hfd₂⟩ := of_close he₂
    rw [get?_close, if_neg hne] at h₂
    exact h.apart _ _ _ _ (of_close h₁).2 h₂ hfd₂

/-- A number that is not in use is not the application's. -/
theorem own_none (h : Holds k own) (hfd : k.fds.get? fd = none) : own.fds.get? fd = none := by
  cases hown : own.fds.get? fd with
  | none => rfl
  | some e =>
    rw [(h.same fd e hown).1] at hfd
    cases hfd

/-- What is open after a pipe is made. -/
theorem of_pipe2 (hunused : k.Unused readFd writeFd)
    (h : (k.pipe2 readFd writeFd).fds.get? fd = some e) :
    (0 ≤ fd ∧ e.pipe = k.nextPipe ∧ k.fds.get? fd = none ∧ (fd = readFd ∨ fd = writeFd)) ∨
      k.fds.get? fd = some e ∧ fd ≠ readFd ∧ fd ≠ writeFd := by
  obtain ⟨hread, hwrite, -, hreadFd, hwriteFd⟩ := hunused
  rw [get?_pipe2] at h
  split at h
  · next heq =>
    cases h
    exact Or.inl ⟨heq ▸ hwrite, rfl, heq ▸ hwriteFd, Or.inr heq.symm⟩
  · next hne =>
    split at h
    · next heq =>
      cases h
      exact Or.inl ⟨heq ▸ hread, rfl, heq ▸ hreadFd, Or.inl heq.symm⟩
    · next hne' => exact Or.inr ⟨h, Ne.symm hne', Ne.symm hne⟩

/-- The descriptors there were are there still. -/
theorem get?_pipe2_of_some (hunused : k.Unused readFd writeFd) (h : k.fds.get? fd = some e) :
    (k.pipe2 readFd writeFd).fds.get? fd = some e := by
  obtain ⟨-, -, -, hreadFd, hwriteFd⟩ := hunused
  have hne : writeFd ≠ fd := by
    rintro rfl
    rw [hwriteFd] at h
    cases h
  have hne' : readFd ≠ fd := by
    rintro rfl
    rw [hreadFd] at h
    cases h
  rw [get?_pipe2, if_neg hne, if_neg hne', h]

/-- The bytes there were are there still. -/
theorem bytes_pipe2_of_some (h : Holds k own) (hfd : k.fds.get? fd = some e) :
    (k.pipe2 readFd writeFd).bytes e.pipe = k.bytes e.pipe :=
  Function.update_of_ne (h.made fd e hfd).ne _ _

/-- A pipe is made that is not the application's. -/
theorem pipe2 (h : Holds k own) (hunused : k.Unused readFd writeFd) :
    Holds (k.pipe2 readFd writeFd) own where
  nonneg := by
    intro fd e he
    rcases of_pipe2 hunused he with ⟨hnonneg, -⟩ | ⟨hold, -⟩
    · exact hnonneg
    · exact h.nonneg fd e hold
  made := by
    intro fd e he
    rcases of_pipe2 hunused he with ⟨-, hpipe, -⟩ | ⟨hold, -⟩
    · rw [hpipe]
      exact Nat.lt_succ_self _
    · exact (h.made fd e hold).trans (Nat.lt_succ_self _)
  same := by
    intro fd e he
    obtain ⟨hsome, hbytes⟩ := h.same fd e he
    exact ⟨get?_pipe2_of_some hunused hsome, (h.bytes_pipe2_of_some hsome).trans hbytes⟩
  apart := by
    intro fd e fd' e' he hnone he'
    rcases of_pipe2 hunused he' with ⟨-, hpipe, -⟩ | ⟨hold, -⟩
    · rw [hpipe]
      exact (h.made fd e (h.same fd e he).1).ne'
    · exact h.apart _ _ _ _ he hnone hold

/-- The application makes one. -/
theorem pipe2Both (h : Holds k own) (hunused : k.Unused readFd writeFd) :
    Holds (k.pipe2 readFd writeFd) ({ own with nextPipe := k.nextPipe }.pipe2 readFd writeFd) := by
  have hunused' : Unused { own with nextPipe := k.nextPipe } readFd writeFd := by
    obtain ⟨hread, hwrite, hne, hreadFd, hwriteFd⟩ := hunused
    exact ⟨hread, hwrite, hne, h.own_none hreadFd, h.own_none hwriteFd⟩
  have hnew : ∀ fd, fd = readFd ∨ fd = writeFd →
      (k.pipe2 readFd writeFd).fds.get? fd =
        ({ own with nextPipe := k.nextPipe }.pipe2 readFd writeFd).fds.get? fd := by
    intro fd hfd
    rw [get?_pipe2, get?_pipe2]
    rcases hfd with rfl | rfl
    · rw [if_pos rfl, if_pos rfl]
    · rw [if_pos rfl, if_pos rfl]
  refine ⟨(h.pipe2 hunused).nonneg, (h.pipe2 hunused).made, ?_, ?_⟩
  · intro fd e he
    rcases of_pipe2 hunused' he with ⟨-, hpipe, -, hfd⟩ | ⟨hold, -⟩
    · refine ⟨(hnew fd hfd).trans he, ?_⟩
      rw [hpipe]
      simp [Kernel.pipe2]
    · obtain ⟨hsome, hbytes⟩ := h.same fd e hold
      refine ⟨get?_pipe2_of_some hunused hsome, (h.bytes_pipe2_of_some hsome).trans ?_⟩
      rw [hbytes]
      exact (Function.update_of_ne (h.made fd e hsome).ne _ _).symm
  · intro fd e fd' e' he hnone he'
    have hne : ¬(fd' = readFd ∨ fd' = writeFd) := by
      intro hfd'
      rw [← hnew fd' hfd', he'] at hnone
      cases hnone
    have hold' : own.fds.get? fd' = none := by
      rw [get?_pipe2, if_neg fun heq => hne (Or.inr heq.symm),
        if_neg fun heq => hne (Or.inl heq.symm)] at hnone
      exact hnone
    rcases of_pipe2 hunused he' with ⟨-, -, -, hfd'⟩ | ⟨hsome', -⟩
    · exact absurd hfd' hne
    · rcases of_pipe2 hunused' he with ⟨-, hpipe, -⟩ | ⟨hold, -⟩
      · rw [hpipe]
        exact (h.made fd' e' hsome').ne
      · exact h.apart _ _ _ _ hold hold' hsome'

/-- The application uses one of its own. -/
theorem use (h : Holds k own) (hown : own.fds.get? fd = some e) (n : ℕ) :
    Holds (k.use e n) (own.use e n) where
  nonneg := by rw [fds_use]; exact h.nonneg
  made := by rw [fds_use, nextPipe_use]; exact h.made
  same := by
    intro fd' e' he'
    rw [fds_use] at he' ⊢
    obtain ⟨hsome, hbytes⟩ := h.same fd' e' he'
    refine ⟨hsome, ?_⟩
    by_cases hpipe : e'.pipe = e.pipe
    · rw [hpipe]
      exact bytes_use_pipe (h.same fd e hown).2 n
    · rw [bytes_use_of_ne _ _ hpipe, bytes_use_of_ne _ _ hpipe, hbytes]
  apart := by
    rw [fds_use, fds_use]
    exact h.apart

end Kernel.Holds

end Rpprof
