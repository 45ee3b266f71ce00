import Rpprof.Unwind.Hosted

/-!
# A pipe that is closed under the calls

The calls keep to their pipe as long as no number that they still know is given to the application.
A descriptor that is closed under them, and a pipe that cannot be made, cost one wrong answer at
most: the call that meets a closed end fails or makes a new pipe, and leaves no bytes that the next
would take for a pipe that works.  None of their descriptors is left behind.

## Main definitions

* `Hosted.Kept`, `Hosted.Sound`, `Hosted.Inv` — what is known is the calls' own; the answer to come
  will be right; wrong answers are paid for.

## Main results

* `Hosted.Kept.next` — what a step of a call keeps.
* `Hosted.Inv.step` — what every step keeps.
* `Hosted.undisturbed_of_reach` — **the application is not disturbed, nothing is left behind, and a
  wrong answer is paid for**.
-/

namespace Rpprof

/-! ### What every step keeps -/

namespace Hosted

section Kept

variable {capacity : ℕ} {readable : ℕ → Bool} {w w' : Shared} {own : Kernel} {addr : ℕ}
  {pc pc' : ValidatePc} {answer : Answer} {fd readFd writeFd : ℤ}

/-- The ends of the pipe the call works with. -/
def ends (w : Shared) : ValidatePc → ℤ × ℤ
  | .opening (.storeRead readFd writeFd) => (readFd, writeFd)
  | .opening (.storeWrite writeFd) => (w.pipes.readFd, writeFd)
  | _ => (w.pipes.readFd, w.pipes.writeFd)

/-- How many bytes may be in it. -/
def limit : ValidatePc → ℕ
  | .opening (.storeRead _ _) | .opening (.storeWrite _) | .loadWrite | .write _ => 0
  | _ => checkLength

/-- What the call holds is what is stored, and what is no longer stored is closed. -/
def Held (w : Shared) : ValidatePc → Prop
  | .read fd | .opening (.closeRead fd) => fd = w.pipes.readFd
  | .opening .loadWrite => w.kernel.fds.get? w.pipes.readFd = none
  | .opening (.closeWrite fd) =>
    fd = w.pipes.writeFd ∧ w.kernel.fds.get? w.pipes.readFd = none
  | .opening .create =>
    w.kernel.fds.get? w.pipes.readFd = none ∧ w.kernel.fds.get? w.pipes.writeFd = none
  | .opening (.storeRead readFd writeFd) =>
    (w.kernel.fds.get? w.pipes.readFd = none ∨ w.pipes.readFd ∈ [readFd, writeFd]) ∧
      (w.kernel.fds.get? w.pipes.writeFd = none ∨ w.pipes.writeFd ∈ [readFd, writeFd])
  | .opening (.storeWrite writeFd) =>
    w.kernel.fds.get? w.pipes.writeFd = none ∨ w.pipes.writeFd ∈ [w.pipes.readFd, writeFd]
  | .write fd => fd = w.pipes.writeFd
  | .done _ | .loadRead | .opening .loadRead | .loadWrite => True

/-- The two are ends of the pipe, or closed. -/
def Shape (k : Kernel) (e : ℤ × ℤ) (pipe : ℕ) : Prop :=
  (k.fds.get? e.1 = none ∨ k.fds.get? e.1 = some (.read pipe)) ∧
    (k.fds.get? e.2 = none ∨ k.fds.get? e.2 = some (.write pipe))

/-- One of the two is an end of the pipe. -/
def Touches (k : Kernel) (e : ℤ × ℤ) (pipe : ℕ) : Prop :=
  k.fds.get? e.1 = some (.read pipe) ∨ k.fds.get? e.2 = some (.write pipe)

/-- The pipe of two ends is one. -/
theorem Shape.eq_of_touches {k : Kernel} {e : ℤ × ℤ} {pipe pipe' : ℕ} (h : Shape k e pipe)
    (htouch : Touches k e pipe') : pipe' = pipe := by
  rcases htouch with hread | hwrite
  · rcases h.1 with hnone | hsome
    · cases hnone.symm.trans hread
    · cases hsome.symm.trans hread
      rfl
  · rcases h.2 with hnone | hsome
    · cases hnone.symm.trans hwrite
    · cases hsome.symm.trans hwrite
      rfl

/-- What is closed has no shape, and touches nothing. -/
theorem Shape.anti {k k' : Kernel} {e : ℤ × ℤ} {pipe : ℕ} (h : Shape k e pipe)
    (hread : k'.fds.get? e.1 = none ∨ k'.fds.get? e.1 = k.fds.get? e.1)
    (hwrite : k'.fds.get? e.2 = none ∨ k'.fds.get? e.2 = k.fds.get? e.2) : Shape k' e pipe := by
  constructor
  · rcases hread with hnone | hsame
    · exact Or.inl hnone
    · rw [hsame]
      exact h.1
  · rcases hwrite with hnone | hsame
    · exact Or.inl hnone
    · rw [hsame]
      exact h.2

theorem Touches.anti {k k' : Kernel} {e : ℤ × ℤ} {pipe : ℕ} (h : Touches k' e pipe)
    (hread : k'.fds.get? e.1 = none ∨ k'.fds.get? e.1 = k.fds.get? e.1)
    (hwrite : k'.fds.get? e.2 = none ∨ k'.fds.get? e.2 = k.fds.get? e.2) : Touches k e pipe := by
  rcases h with h | h
  · rcases hread with hnone | hsame
    · cases hnone.symm.trans h
    · exact Or.inl (hsame.symm.trans h)
  · rcases hwrite with hnone | hsame
    · cases hnone.symm.trans h
    · exact Or.inr (hsame.symm.trans h)

/-- The part of the invariant that is not about answers. -/
structure Kept (w : Shared) (pc : ValidatePc) (own : Kernel) : Prop where
  holds : w.kernel.Holds own
  mine : ∀ fd ∈ known w pc, own.fds.get? fd = none
  tidy : ∀ fd e, w.kernel.fds.get? fd = some e → own.fds.get? fd = some e ∨ fd ∈ known w pc
  held : Held w pc
  shape : ∃ pipe, Shape w.kernel (ends w pc) pipe
  drained : ∀ pipe, Touches w.kernel (ends w pc) pipe → w.kernel.bytes pipe ≤ limit pc

/-- The call under way, or the next one, will answer right if nothing happens to it. -/
def Sound (w : Shared) : ValidatePc → Prop
  | .done _ | .loadRead | .read _ =>
    ∀ pipe, w.kernel.fds.get? w.pipes.readFd = some (.read pipe) → 0 < w.kernel.bytes pipe →
      w.kernel.fds.get? w.pipes.writeFd ≠ none
  | .opening (.storeRead readFd writeFd) =>
    w.kernel.fds.get? readFd ≠ none ∧ w.kernel.fds.get? writeFd ≠ none
  | .opening (.storeWrite writeFd) =>
    w.kernel.fds.get? w.pipes.readFd ≠ none ∧ w.kernel.fds.get? writeFd ≠ none
  | .loadWrite | .write _ =>
    w.kernel.fds.get? w.pipes.readFd ≠ none ∧ w.kernel.fds.get? w.pipes.writeFd ≠ none
  | .opening _ => True

namespace Kept

/-- A step that opens and closes nothing. -/
theorem move (h : Kept w pc own) (hfds : w'.kernel.fds = w.kernel.fds)
    (hholds : w'.kernel.Holds own) (hmine : ∀ fd ∈ known w' pc', fd ∈ known w pc)
    (htidy : ∀ fd ∈ known w pc, w.kernel.fds.get? fd = none ∨ fd ∈ known w' pc')
    (hheld : Held w' pc') (hends : ends w' pc' = ends w pc)
    (hbytes : ∀ pipe, Touches w.kernel (ends w pc) pipe → w.kernel.bytes pipe ≤ limit pc →
      w'.kernel.bytes pipe ≤ limit pc') : Kept w' pc' own where
  holds := hholds
  mine := fun fd hfd => h.mine fd (hmine fd hfd)
  tidy := by
    intro fd e he
    rw [hfds] at he
    rcases h.tidy fd e he with hown | hknown
    · exact Or.inl hown
    · rcases htidy fd hknown with hnone | hknown'
      · rw [hnone] at he
        cases he
      · exact Or.inr hknown'
  held := hheld
  shape := by
    rw [hends]
    unfold Shape
    rw [hfds]
    exact h.shape
  drained := by
    intro pipe htouch
    rw [hends, Touches, hfds] at htouch
    exact hbytes pipe htouch (h.drained pipe htouch)

/-- A step that leaves the kernel and the stored numbers alone. -/
theorem walk (h : Kept w pc own) (hknown : ∀ fd, fd ∈ known w pc' ↔ fd ∈ known w pc)
    (hheld : Held w pc') (hends : ends w pc' = ends w pc) (hlimit : limit pc ≤ limit pc') :
    Kept w pc' own :=
  h.move rfl h.holds (fun fd => (hknown fd).mp) (fun fd hfd => Or.inr ((hknown fd).mpr hfd)) hheld
    hends fun _ _ hle => hle.trans hlimit

/-- A descriptor of the pipe that is open is its own end. -/
theorem get?_fst {pipe : ℕ} {e : ℤ × ℤ} {k : Kernel} (h : Shape k e pipe)
    (hopen : k.fds.get? e.1 ≠ none) : k.fds.get? e.1 = some (.read pipe) :=
  h.1.resolve_left hopen

theorem get?_snd {pipe : ℕ} {e : ℤ × ℤ} {k : Kernel} (h : Shape k e pipe)
    (hopen : k.fds.get? e.2 ≠ none) : k.fds.get? e.2 = some (.write pipe) :=
  h.2.resolve_left hopen

/-- Only the stored number can be the other end of a pipe whose one end is stored. -/
theorem writeFd_of_isOpen {pipe : ℕ} (h : Kept w (.read w.pipes.readFd) own)
    (hread : w.kernel.fds.get? w.pipes.readFd = some (.read pipe))
    (hopen : w.kernel.isOpen (.write pipe) = true) :
    w.kernel.fds.get? w.pipes.writeFd ≠ none := by
  obtain ⟨⟨fd, e⟩, hmem, he⟩ := List.any_eq_true.mp hopen
  have hfd : w.kernel.fds.get? fd = some (.write pipe) := by
    rw [← eq_of_beq he]
    exact Table.get?_of_mem hmem
  have hmine : w.pipes.readFd ∈ known w (.read w.pipes.readFd) := List.mem_cons_self
  rcases h.tidy fd _ hfd with hown | hknown
  · exact absurd rfl (h.holds.apart _ (.write pipe) _ (.read pipe) hown (h.mine _ hmine) hread)
  · simp only [known, ValidatePc.fds, List.mem_cons, List.not_mem_nil, or_false] at hknown
    rcases hknown with rfl | rfl | rfl
    · rw [hread] at hfd
      cases hfd
    · rw [hfd]
      exact Option.some_ne_none _
    · rw [hread] at hfd
      cases hfd

/-- What `read` finds: nothing to read from, or the pipe, which is empty then. -/
theorem read_cases (h : Kept w (.read fd) own) :
    ValidatePc.afterRead (w.kernel.read fd).1 = .opening .loadRead ∧
        (w.kernel.read fd).2 = w.kernel ∧
        (w.kernel.fds.get? w.pipes.readFd = none ∨ w.kernel.fds.get? w.pipes.writeFd = none) ∨
      ValidatePc.afterRead (w.kernel.read fd).1 = .loadWrite ∧
        w.kernel.fds.get? w.pipes.readFd ≠ none ∧
        (∀ pipe, Touches w.kernel (ends w (.read fd)) pipe →
          (w.kernel.read fd).2.bytes pipe = 0) ∧
        (Sound w (.read fd) → w.kernel.fds.get? w.pipes.writeFd ≠ none) := by
  obtain rfl : fd = w.pipes.readFd := h.held
  obtain ⟨pipe, hshape⟩ := h.shape
  by_cases hopen : w.kernel.fds.get? w.pipes.readFd = none
  · refine Or.inl ⟨?_, ?_, Or.inl hopen⟩ <;> simp [Kernel.read, hopen, ValidatePc.afterRead]
  · have hread : w.kernel.fds.get? w.pipes.readFd = some (.read pipe) := get?_fst hshape hopen
    have hle : w.kernel.bytes pipe ≤ checkLength := h.drained pipe (Or.inl hread)
    by_cases hwrite : w.kernel.isOpen (.write pipe) = true
    · obtain ⟨hafter, -, hbytes⟩ := Kernel.read_of_opened hread hwrite
      refine Or.inr ⟨hafter, hopen, ?_, fun _ => h.writeFd_of_isOpen hread hwrite⟩
      intro pipe' htouch
      rw [hshape.eq_of_touches htouch, hbytes]
      exact Nat.sub_eq_zero_of_le hle
    · have hclosed : w.kernel.fds.get? w.pipes.writeFd = none := by
        by_contra hne
        exact hwrite (Kernel.isOpen_of_get? (get?_snd hshape hne))
      by_cases hpos : 0 < w.kernel.bytes pipe
      · refine Or.inr ⟨?_, hopen, ?_, fun hsound => hsound pipe hread hpos⟩
        · have hmin : 0 < min checkLength (w.kernel.bytes pipe) := lt_min (by decide) hpos
          simp only [Kernel.read, hread, if_pos hpos, ValidatePc.afterRead, if_pos hmin]
        · intro pipe' htouch
          rw [hshape.eq_of_touches htouch]
          simp only [Kernel.read, hread, if_pos hpos, Function.update_self]
          exact Nat.sub_eq_zero_of_le hle
      · refine Or.inl ⟨?_, ?_, Or.inr hclosed⟩ <;>
          simp [Kernel.read, hread, hpos, hwrite, ValidatePc.afterRead]

/-- What `write` adds to an empty pipe, if it is open. -/
theorem bytes_write (h : Kept w (.write fd) own) {pipe : ℕ} (hempty : w.kernel.bytes pipe = 0) :
    (w.kernel.write capacity readable fd addr).2.bytes pipe ≤ checkLength ∧
      (w.kernel.fds.get? w.pipes.writeFd = none →
        (w.kernel.write capacity readable fd addr).2.bytes pipe = 0) := by
  obtain rfl : fd = w.pipes.writeFd := h.held
  unfold Kernel.write
  split
  · next pipe' hwrite =>
    refine ⟨?_, fun hnone => by cases hnone.symm.trans hwrite⟩
    split
    · exact hempty.trans_le (Nat.zero_le _)
    · split
      · exact hempty.trans_le (Nat.zero_le _)
      · split
        · by_cases hpipe : pipe = pipe'
          · simp [← hpipe, hempty]
          · simp [Function.update_of_ne hpipe, hempty]
        · exact hempty.trans_le (Nat.zero_le _)
  · exact ⟨hempty.trans_le (Nat.zero_le _), fun _ => hempty⟩

/-! ### One step of a call -/

/-- What is stored is known. -/
theorem known_of_subset (hsub : ∀ fd ∈ pc.fds, fd = w.pipes.readFd ∨ fd = w.pipes.writeFd) :
    ∀ fd, fd ∈ known w pc ↔ fd = w.pipes.readFd ∨ fd = w.pipes.writeFd := by
  intro fd
  simp only [known, List.mem_cons]
  constructor
  · rintro (rfl | rfl | hfd)
    · exact Or.inl rfl
    · exact Or.inr rfl
    · exact hsub fd hfd
  · rintro (rfl | rfl)
    · exact Or.inl rfl
    · exact Or.inr (Or.inl rfl)

/-- A step between two places where the call holds what is stored. -/
theorem stroll (h : Kept w pc own)
    (hsub : ∀ fd ∈ pc.fds, fd = w.pipes.readFd ∨ fd = w.pipes.writeFd)
    (hsub' : ∀ fd ∈ pc'.fds, fd = w.pipes.readFd ∨ fd = w.pipes.writeFd)
    (hheld : Held w pc') (hends : ends w pc' = ends w pc) (hlimit : limit pc ≤ limit pc') :
    Kept w pc' own :=
  h.walk (fun fd => (known_of_subset hsub' fd).trans (known_of_subset hsub fd).symm) hheld hends
    hlimit

/-- A stored number is closed. -/
theorem shut (h : Kept w pc own) (hown : own.fds.get? fd = none)
    (hmine : ∀ fd' ∈ known w pc', fd' ∈ known w pc)
    (htidy : ∀ fd' ∈ known w pc, fd' = fd ∨ fd' ∈ known w pc')
    (hheld : Held { w with kernel := w.kernel.close fd } pc')
    (hends : ∀ w : Shared, ends w pc' = ends w pc) (hlimit : limit pc ≤ limit pc') :
    Kept { w with kernel := w.kernel.close fd } pc' own where
  holds := h.holds.close hown
  mine := fun fd' hfd' => h.mine fd' (hmine fd' hfd')
  tidy := by
    intro fd' e he
    obtain ⟨hne, hfd'⟩ := Kernel.Holds.of_close he
    rcases h.tidy fd' e hfd' with hown' | hknown
    · exact Or.inl hown'
    · exact Or.inr ((htidy fd' hknown).resolve_left hne.symm)
  held := hheld
  shape := by
    obtain ⟨pipe, hshape⟩ := h.shape
    rw [hends]
    exact ⟨pipe, hshape.anti (Kernel.get?_close_anti _ _ _) (Kernel.get?_close_anti _ _ _)⟩
  drained := by
    intro pipe htouch
    rw [hends] at htouch
    exact (h.drained pipe (htouch.anti (Kernel.get?_close_anti _ _ _)
      (Kernel.get?_close_anti _ _ _))).trans hlimit

/-- The pipe is made. -/
theorem create (h : Kept w (.opening .create) own)
    (hunused : w.kernel.Unused readFd writeFd) :
    Kept { w with kernel := w.kernel.pipe2 readFd writeFd }
      (.opening (.storeRead readFd writeFd)) own := by
  obtain ⟨hread, hwrite⟩ := h.held
  have hne : ¬writeFd = readFd := fun heq => hunused.2.2.1 heq.symm
  have hstale : ∀ fd, w.kernel.fds.get? fd = none →
      (w.kernel.pipe2 readFd writeFd).fds.get? fd = none ∨ fd ∈ [readFd, writeFd] := by
    intro fd hfd
    rw [Kernel.get?_pipe2]
    split
    · next heq => exact Or.inr (by simp [heq])
    · split
      · next heq => exact Or.inr (by simp [heq])
      · exact Or.inl hfd
  have hreadFd : (w.kernel.pipe2 readFd writeFd).fds.get? readFd =
      some (.read w.kernel.nextPipe) := by
    simp [Kernel.get?_pipe2, hne]
  have hwriteFd : (w.kernel.pipe2 readFd writeFd).fds.get? writeFd =
      some (.write w.kernel.nextPipe) := by
    simp [Kernel.get?_pipe2]
  refine ⟨h.holds.pipe2 hunused, ?_, ?_, ⟨hstale _ hread, hstale _ hwrite⟩,
    ⟨w.kernel.nextPipe, Or.inr hreadFd, Or.inr hwriteFd⟩, ?_⟩
  · intro fd hfd
    simp only [known, ValidatePc.fds, List.mem_cons, List.not_mem_nil, or_false] at hfd
    rcases hfd with rfl | rfl | rfl | rfl
    · exact h.mine _ (by simp [known])
    · exact h.mine _ (by simp [known])
    · exact h.holds.own_none hunused.2.2.2.1
    · exact h.holds.own_none hunused.2.2.2.2
  · intro fd e he
    rcases Kernel.Holds.of_pipe2 hunused he with ⟨-, -, -, rfl | rfl⟩ | ⟨hold, -⟩
    · exact Or.inr (by simp [known, ValidatePc.fds])
    · exact Or.inr (by simp [known, ValidatePc.fds])
    · rcases h.tidy fd e hold with hown | hknown
      · exact Or.inl hown
      · refine Or.inr ?_
        simp only [known, ValidatePc.fds, List.mem_cons, List.not_mem_nil, or_false] at hknown ⊢
        exact hknown.imp_right Or.inl
  · intro pipe htouch
    have hpipe : pipe = w.kernel.nextPipe :=
      Shape.eq_of_touches ⟨Or.inr hreadFd, Or.inr hwriteFd⟩ htouch
    simp [Kernel.pipe2, limit, hpipe]

/-- The read end is stored; what was stored before is closed. -/
theorem storeRead (h : Kept w (.opening (.storeRead readFd writeFd)) own) :
    Kept { w with pipes := { w.pipes with readFd := readFd } } (.opening (.storeWrite writeFd))
      own := by
  obtain ⟨hread, hwrite⟩ := h.held
  refine h.move rfl h.holds ?_ ?_ hwrite rfl fun _ _ hle => hle
  · intro fd hfd
    simp only [known, ValidatePc.fds, List.mem_cons, List.not_mem_nil, or_false] at hfd ⊢
    tauto
  · intro fd hfd
    simp only [known, ValidatePc.fds, List.mem_cons, List.not_mem_nil, or_false] at hfd hread ⊢
    rcases hfd with rfl | hfd
    · tauto
    · tauto

/-- The write end is stored. -/
theorem storeWrite (h : Kept w (.opening (.storeWrite writeFd)) own) :
    Kept { w with pipes := { w.pipes with writeFd := writeFd } } .loadWrite own := by
  have hwrite : _ ∨ _ := h.held
  refine h.move rfl h.holds ?_ ?_ trivial rfl fun _ _ hle => hle
  · intro fd hfd
    simp only [known, ValidatePc.fds, List.mem_cons, List.not_mem_nil, or_false] at hfd ⊢
    tauto
  · intro fd hfd
    simp only [known, ValidatePc.fds, List.mem_cons, List.not_mem_nil, or_false] at hfd hwrite ⊢
    rcases hfd with hfd | rfl | hfd
    · tauto
    · tauto
    · tauto

/-- What is read is drained. -/
theorem afterRead (h : Kept w (.read fd) own) :
    Kept { w with kernel := (w.kernel.read fd).2 } (ValidatePc.afterRead (w.kernel.read fd).1)
      own := by
  have hheld : fd = w.pipes.readFd := h.held
  have hown : own.fds.get? fd = none := h.mine fd (by simp [known, ValidatePc.fds])
  have hknown : ∀ fd' (w' : Shared) (pc' : ValidatePc), w'.pipes = w.pipes → pc'.fds = [] →
      (fd' ∈ known w' pc' ↔ fd' ∈ known w (.read fd)) := by
    intro fd' w' pc' hpipes hnil
    have hnone : ∀ fd ∈ pc'.fds, fd = w'.pipes.readFd ∨ fd = w'.pipes.writeFd := by simp [hnil]
    have hread : ∀ fd' ∈ (ValidatePc.read fd).fds,
        fd' = w.pipes.readFd ∨ fd' = w.pipes.writeFd := by
      simp [ValidatePc.fds, hheld]
    rw [known_of_subset hnone, known_of_subset hread, hpipes]
  rcases h.read_cases with ⟨hafter, hsame, -⟩ | ⟨hafter, -, hbytes, -⟩
  · rw [hafter, hsame]
    exact h.walk (fun fd' => hknown fd' w _ rfl rfl) trivial rfl le_rfl
  · rw [hafter]
    refine h.move (Kernel.fds_read _ _) (h.holds.read hown) (fun fd' => (hknown fd' _ _ rfl rfl).mp)
      (fun fd' hfd' => Or.inr ((hknown fd' _ _ rfl rfl).mpr hfd')) trivial rfl ?_
    intro pipe htouch _
    exact (hbytes pipe htouch).le

/-- What is written is little. -/
theorem afterWrite (h : Kept w (.write fd) own) :
    Kept { w with kernel := (w.kernel.write capacity readable fd addr).2 }
      (ValidatePc.afterWrite (w.kernel.write capacity readable fd addr).1) own := by
  have hheld : fd = w.pipes.writeFd := h.held
  have hown : own.fds.get? fd = none := h.mine fd (by simp [known, ValidatePc.fds])
  obtain ⟨result, hresult⟩ := ValidatePc.exists_afterWrite
    (w.kernel.write capacity readable fd addr).1
  rw [hresult]
  refine h.move (Kernel.fds_write _ _ _ _ _) (h.holds.write capacity readable addr hown) ?_ ?_
    trivial rfl ?_
  · intro fd' hfd'
    simp only [known, ValidatePc.fds, List.mem_cons, List.not_mem_nil, or_false] at hfd' ⊢
    tauto
  · intro fd' hfd'
    simp only [known, ValidatePc.fds, List.mem_cons, List.not_mem_nil, or_false] at hfd' ⊢
    rw [hheld] at hfd'
    tauto
  · intro pipe _ hle
    exact (h.bytes_write (Nat.le_zero.mp hle)).1

/-- **Every step of a call keeps it.** -/
theorem next (h : Kept w pc own) (hnext : pc.Next capacity readable w addr answer w' pc') :
    Kept w' pc' own := by
  cases hnext with
  | loadSome _ =>
    exact h.stroll (by simp [ValidatePc.fds]) (by simp [ValidatePc.fds]) rfl rfl le_rfl
  | loadNone _ =>
    exact h.stroll (by simp [ValidatePc.fds]) (by simp [ValidatePc.fds]) trivial rfl le_rfl
  | read => exact h.afterRead
  | readAgain => exact h
  | openLoadRead =>
    exact h.stroll (by simp [ValidatePc.fds]) (by simp [ValidatePc.fds]) rfl rfl le_rfl
  | closeRead =>
    have hheld : _ = w.pipes.readFd := h.held
    refine h.shut (h.mine _ (by simp [known, ValidatePc.fds])) ?_ ?_ ?_ (fun _ => rfl) le_rfl
    · simp [known, ValidatePc.fds]
    · simp [known, ValidatePc.fds]
    · simp [Held, Kernel.get?_close, hheld]
  | openLoadWrite =>
    exact h.stroll (by simp [ValidatePc.fds]) (by simp [ValidatePc.fds]) ⟨rfl, h.held⟩ rfl le_rfl
  | closeWrite =>
    obtain ⟨hheld, hread⟩ := h.held
    refine h.shut (h.mine _ (by simp [known, ValidatePc.fds])) ?_ ?_ ?_ (fun _ => rfl) le_rfl
    · simp [known, ValidatePc.fds]
    · simp [known, ValidatePc.fds]
    · simp [Held, Kernel.get?_close, hheld, hread]
  | create hunused => exact h.create hunused
  | createFails =>
    exact h.stroll (by simp [ValidatePc.fds]) (by simp [ValidatePc.fds]) trivial rfl le_rfl
  | storeRead => exact h.storeRead
  | storeWrite => exact h.storeWrite
  | loadWrite =>
    exact h.stroll (by simp [ValidatePc.fds]) (by simp [ValidatePc.fds]) rfl rfl le_rfl
  | write => exact h.afterWrite
  | writeAgain => exact h

/-! ### One step of the application -/

theorem ends_mem_known (w : Shared) (pc : ValidatePc) :
    (ends w pc).1 ∈ known w pc ∧ (ends w pc).2 ∈ known w pc := by
  unfold ends
  split <;> simp [known, ValidatePc.fds]

/-- The application closes some of what is known, or none of it, and leaves the pipes of it. -/
theorem anti (h : Kept w pc own) {k own' : Kernel} (hholds : k.Holds own')
    (hmine : ∀ fd ∈ known w pc, own'.fds.get? fd = none)
    (htidy : ∀ fd e, k.fds.get? fd = some e → own'.fds.get? fd = some e ∨ fd ∈ known w pc)
    (hfds : ∀ fd ∈ known w pc, k.fds.get? fd = none ∨ k.fds.get? fd = w.kernel.fds.get? fd)
    (hbytes : ∀ fd ∈ known w pc, ∀ e, w.kernel.fds.get? fd = some e →
      k.bytes e.pipe = w.kernel.bytes e.pipe) :
    Kept { w with kernel := k } pc own' := by
  obtain ⟨hfst, hsnd⟩ := ends_mem_known w pc
  have hnone : ∀ fd ∈ known w pc, w.kernel.fds.get? fd = none → k.fds.get? fd = none := by
    intro fd hfd hnone
    rcases hfds fd hfd with hgone | hsame
    · exact hgone
    · rw [hsame, hnone]
  have hread : w.pipes.readFd ∈ known w pc := List.mem_cons_self
  have hwrite : w.pipes.writeFd ∈ known w pc := List.mem_cons_of_mem _ List.mem_cons_self
  refine ⟨hholds, hmine, htidy, ?_, ?_, ?_⟩
  · have hheld := h.held
    cases pc with
    | opening at_ =>
      cases at_ with
      | loadRead => trivial
      | closeRead fd => exact hheld
      | loadWrite => exact hnone _ hread hheld
      | closeWrite fd => exact hheld.imp_right (hnone _ hread)
      | create => exact hheld.imp (hnone _ hread) (hnone _ hwrite)
      | storeRead readFd writeFd =>
        exact hheld.imp (Or.imp_left (hnone _ hread)) (Or.imp_left (hnone _ hwrite))
      | storeWrite writeFd => exact Or.imp_left (hnone _ hwrite) hheld
    | read fd | write fd => exact hheld
    | done _ | loadRead | loadWrite => trivial
  · obtain ⟨pipe, hshape⟩ := h.shape
    exact ⟨pipe, hshape.anti (hfds _ hfst) (hfds _ hsnd)⟩
  · intro pipe htouch
    have htouch' : Touches w.kernel (ends w pc) pipe := htouch.anti (hfds _ hfst) (hfds _ hsnd)
    have hsame : k.bytes pipe = w.kernel.bytes pipe := by
      rcases htouch' with hend | hend
      · exact hbytes _ hfst _ hend
      · exact hbytes _ hsnd _ hend
    exact hsame.trans_le (h.drained pipe htouch')

/-- The application closes a descriptor. -/
theorem closed (h : Kept w pc own) (fd : ℤ) :
    Kept { w with kernel := w.kernel.close fd } pc (own.close fd) := by
  refine h.anti (h.holds.closeBoth fd) ?_ ?_ (fun fd' _ => Kernel.get?_close_anti _ _ _)
    fun _ _ _ _ => rfl
  · intro fd' hfd'
    rcases Kernel.get?_close_anti own fd fd' with hnone | hsame
    · exact hnone
    · exact hsame.trans (h.mine fd' hfd')
  · intro fd' e he
    obtain ⟨hne, hold⟩ := Kernel.Holds.of_close he
    rw [Kernel.get?_close, if_neg hne]
    exact h.tidy fd' e hold

/-- The application makes a pipe, under other numbers. -/
theorem piped (h : Kept w pc own) (hunused : w.kernel.Unused readFd writeFd)
    (hclear : readFd ∉ known w pc ∧ writeFd ∉ known w pc) :
    Kept { w with kernel := w.kernel.pipe2 readFd writeFd } pc
      ({ own with nextPipe := w.kernel.nextPipe }.pipe2 readFd writeFd) := by
  have hother : ∀ fd ∈ known w pc, ¬writeFd = fd ∧ ¬readFd = fd := by
    intro fd hfd
    exact ⟨fun heq => hclear.2 (heq ▸ hfd), fun heq => hclear.1 (heq ▸ hfd)⟩
  refine h.anti (h.holds.pipe2Both hunused) ?_ ?_ ?_ ?_
  · intro fd hfd
    obtain ⟨hwrite, hread⟩ := hother fd hfd
    rw [Kernel.get?_pipe2, if_neg hwrite, if_neg hread]
    exact h.mine fd hfd
  · intro fd e he
    rw [Kernel.get?_pipe2] at he ⊢
    split
    · next heq => exact Or.inl (by rw [if_pos heq] at he; exact he)
    · next hne =>
      rw [if_neg hne] at he
      split
      · next heq => exact Or.inl (by rw [if_pos heq] at he; exact he)
      · next hne' =>
        rw [if_neg hne'] at he
        exact h.tidy fd e he
  · intro fd hfd
    obtain ⟨hwrite, hread⟩ := hother fd hfd
    rw [Kernel.get?_pipe2, if_neg hwrite, if_neg hread]
    exact Or.inr rfl
  · exact fun fd _ e he => h.holds.bytes_pipe2_of_some he

/-- The application uses one of its own. -/
theorem used (h : Kept w pc own) {e : PipeEnd} (hown : own.fds.get? fd = some e) (n : ℕ) :
    Kept { w with kernel := w.kernel.use e n } pc (own.use e n) := by
  refine h.anti (h.holds.use hown n) ?_ ?_ ?_ ?_
  · rw [Kernel.fds_use]
    exact h.mine
  · rw [Kernel.fds_use, Kernel.fds_use]
    exact h.tidy
  · rw [Kernel.fds_use]
    exact fun _ _ => Or.inr rfl
  · intro fd' hfd' e' he'
    exact Kernel.bytes_use_of_ne _ _ (h.holds.apart _ _ _ _ hown (h.mine fd' hfd') he')

/-! ### Answers -/

/-- Whatever it answers, the call that returns leaves nothing that the next one would take for a
pipe. -/
theorem sound_of_done {result : Bool} (h : Kept w pc own)
    (hnext : pc.Next capacity readable w addr answer w' (.done result)) :
    Sound w' (.done result) := by
  generalize hpc' : ValidatePc.done result = pc' at hnext
  cases hnext with
  | createFails =>
    intro pipe hread
    cases h.held.1.symm.trans hread
  | write =>
    rw [← hpc']
    intro pipe hread hpos hnone
    rw [Kernel.fds_write] at hread hnone
    have hempty : w.kernel.bytes pipe = 0 := Nat.le_zero.mp (h.drained pipe (Or.inl hread))
    rw [(h.bytes_write hempty).2 hnone] at hpos
    exact absurd hpos (lt_irrefl 0)
  | read =>
    rcases h.read_cases with ⟨hafter, -⟩ | ⟨hafter, -⟩
    · rw [hafter] at hpc'
      cases hpc'
    · rw [hafter] at hpc'
      cases hpc'
  | loadSome | loadNone | readAgain | openLoadRead | closeRead | openLoadWrite | closeWrite
    | create | storeRead | storeWrite | loadWrite | writeAgain => cases hpc'

/-- A call that is to answer right goes on so, unless a pipe cannot be made. -/
theorem sound_next (h : Kept w pc own) (hsound : Sound w pc) (hpipe : answer ≠ .noPipe)
    (hnext : pc.Next capacity readable w addr answer w' pc') : Sound w' pc' := by
  cases hnext with
  | loadSome _ => exact hsound
  | loadNone _ => trivial
  | read =>
    rcases h.read_cases with ⟨hafter, hsame, -⟩ | ⟨hafter, hopen, -, hwrite⟩
    · rw [hafter]
      trivial
    · rw [hafter]
      show _ ∧ _
      rw [Kernel.fds_read]
      exact ⟨hopen, hwrite hsound⟩
  | readAgain => exact hsound
  | openLoadRead | closeRead | openLoadWrite | closeWrite => trivial
  | create hunused =>
    have hne : ¬_ = _ := fun heq => hunused.2.2.1 heq.symm
    show _ ∧ _
    simp [Kernel.get?_pipe2, hne]
  | createFails => exact absurd rfl hpipe
  | storeRead => exact hsound
  | storeWrite => exact hsound
  | loadWrite => exact hsound
  | @write fd =>
    obtain ⟨result, hresult⟩ := ValidatePc.exists_afterWrite
      (w.kernel.write capacity readable fd addr).1
    have hdone : (ValidatePc.write fd).Next capacity readable w addr .go _ _ := .write
    rw [hresult] at hdone ⊢
    exact h.sound_of_done hdone
  | writeAgain => exact hsound

/-- What it answers is right. -/
theorem eq_truth {result : Bool} (h : Kept w pc own) (hsound : Sound w pc)
    (hcap : checkLength ≤ capacity) (haddr : addr ≠ 0) (hpipe : answer ≠ .noPipe)
    (hnext : pc.Next capacity readable w addr answer w' (.done result)) :
    result = truth readable addr := by
  generalize hpc' : ValidatePc.done result = pc' at hnext
  cases hnext with
  | write =>
    obtain rfl : _ = w.pipes.writeFd := h.held
    obtain ⟨pipe, hshape⟩ := h.shape
    have hread : w.kernel.fds.get? w.pipes.readFd = some (.read pipe) := get?_fst hshape hsound.1
    have hwrite : w.kernel.fds.get? w.pipes.writeFd = some (.write pipe) := get?_snd hshape hsound.2
    have hempty : w.kernel.bytes pipe = 0 := Nat.le_zero.mp (h.drained pipe (Or.inl hread))
    have hroom : w.kernel.bytes pipe + checkLength ≤ capacity := by
      rw [hempty, Nat.zero_add]
      exact hcap
    obtain ⟨hafter, -⟩ :=
      Kernel.write_of_opened hwrite (Kernel.isOpen_of_get? hread) hroom readable addr
    rw [hafter] at hpc'
    cases hpc'
    simp [truth, haddr]
  | createFails => exact absurd rfl hpipe
  | read =>
    rcases h.read_cases with ⟨hafter, -⟩ | ⟨hafter, -⟩
    · rw [hafter] at hpc'
      cases hpc'
    · rw [hafter] at hpc'
      cases hpc'
  | loadSome | loadNone | readAgain | openLoadRead | closeRead | openLoadWrite | closeWrite
    | create | storeRead | storeWrite | loadWrite | writeAgain => cases hpc'

end Kept

end Kept

section Inv

variable {capacity : ℕ} {readable : ℕ → Bool} {s s' : Hosted}

/-- The application leaves what is known alone. -/
theorem Sound.congr {w : Shared} {pc : ValidatePc} {k : Kernel} (h : Sound w pc)
    (hfds : ∀ fd ∈ known w pc, k.fds.get? fd = w.kernel.fds.get? fd)
    (hbytes : ∀ fd ∈ known w pc, ∀ e, w.kernel.fds.get? fd = some e →
      k.bytes e.pipe = w.kernel.bytes e.pipe) : Sound { w with kernel := k } pc := by
  have hread : w.pipes.readFd ∈ known w pc := List.mem_cons_self
  have hwrite : w.pipes.writeFd ∈ known w pc := List.mem_cons_of_mem _ List.mem_cons_self
  have hidle : (∀ pipe, w.kernel.fds.get? w.pipes.readFd = some (.read pipe) →
      0 < w.kernel.bytes pipe → w.kernel.fds.get? w.pipes.writeFd ≠ none) →
      ∀ pipe, k.fds.get? w.pipes.readFd = some (.read pipe) → 0 < k.bytes pipe →
        k.fds.get? w.pipes.writeFd ≠ none := by
    intro hsound pipe hend hpos
    rw [hfds _ hread] at hend
    rw [hfds _ hwrite]
    have hsame : k.bytes pipe = w.kernel.bytes pipe := hbytes _ hread _ hend
    exact hsound pipe hend (hsame ▸ hpos)
  cases pc with
  | done _ | loadRead | read _ => exact hidle h
  | opening at_ =>
    cases at_ with
    | storeRead readFd writeFd =>
      show _ ∧ _
      rw [hfds readFd (by simp [known, ValidatePc.fds]),
        hfds writeFd (by simp [known, ValidatePc.fds])]
      exact h
    | storeWrite writeFd =>
      show _ ∧ _
      rw [hfds _ hread, hfds writeFd (by simp [known, ValidatePc.fds])]
      exact h
    | loadRead | closeRead _ | loadWrite | closeWrite _ | create => trivial
  | loadWrite | write _ =>
    show _ ∧ _
    rw [hfds _ hread, hfds _ hwrite]
    exact h

/-- A close of its own does not touch what is not the application's. -/
theorem get?_close_of_not_foreign {fd fd' : ℤ} (hown : s.own.fds.get? fd' = none)
    (h : s.foreign fd = false) :
    (s.shared.kernel.close fd).fds.get? fd' = s.shared.kernel.fds.get? fd' := by
  rw [Kernel.get?_close]
  split
  · next heq =>
    rw [foreign, heq, hown] at h
    exact (Option.not_isSome_iff_eq_none.mp (by simpa using h)).symm
  · rfl

/-- A right answer, or none, is not counted. -/
theorem wrong_of_right {answered : List (ℕ × Bool)} {addr : ℕ} {pc : ValidatePc}
    (h : ∀ result, pc = .done result → result = truth readable addr) :
    wrong readable (answered ++ pc.answer addr) = wrong readable answered := by
  rw [wrong, List.countP_append, ← wrong]
  cases pc with
  | done result => simp [ValidatePc.answer, h result rfl]
  | loadRead | read | opening | loadWrite | write => rfl

variable (readable) in
/-- Any other is counted once. -/
theorem wrong_le (answered : List (ℕ × Bool)) (addr : ℕ) (pc : ValidatePc) :
    wrong readable (answered ++ pc.answer addr) ≤ wrong readable answered + 1 := by
  rw [wrong, List.countP_append, ← wrong]
  refine Nat.add_le_add_left ?_ _
  cases pc with
  | done result => exact List.countP_le_length
  | loadRead | read | opening | loadWrite | write => exact Nat.zero_le _

variable (readable) in
/-- **The invariant.**  Wrong answers are paid for: there are fewer of them than hits, or as many,
and the next answer will be right. -/
structure Inv (s : Hosted) : Prop where
  kept : Kept s.shared s.pc s.own
  begun : s.pc.over = true ∨ s.addr ≠ 0
  budget : wrong readable s.answered < s.hits ∨
    Sound s.shared s.pc ∧ wrong readable s.answered ≤ s.hits

namespace Inv

/-- At the start. -/
theorem init {k : Kernel} (hk : k.Holds k) : Inv readable (init k) := by
  have hminus : k.fds.get? (-1) = none := by
    cases hget : k.fds.get? (-1) with
    | none => rfl
    | some e => exact absurd (hk.nonneg _ _ hget) (by decide)
  refine ⟨⟨hk, ?_, fun _ _ => Or.inl, trivial, ⟨0, Or.inl hminus, Or.inl hminus⟩, ?_⟩, Or.inl rfl,
    Or.inr ⟨?_, le_rfl⟩⟩
  · simpa [known, Hosted.init, ValidatePc.fds] using hminus
  · rintro pipe (htouch | htouch)
    · cases hminus.symm.trans htouch
    · cases hminus.symm.trans htouch
  · intro pipe hread
    cases hminus.symm.trans hread

/-- A call begins. -/
theorem call (h : Inv readable s) {addr : ℕ}
    (hstep : s.step capacity readable (.call addr) = some s') : Inv readable s' := by
  rw [step, Option.ite_none_right_eq_some, Option.some.injEq] at hstep
  obtain ⟨hover, rfl⟩ := hstep
  obtain ⟨hkept, -, hbudget⟩ := h
  have hwrong : wrong readable (s.answered ++ (ValidateCall.new addr).pc.answer addr) =
      wrong readable s.answered := by
    refine wrong_of_right fun result hresult => ?_
    by_cases haddr : addr = 0
    · rw [ValidateCall.new, if_pos haddr] at hresult
      cases hresult
      simp [truth, haddr]
    · rw [ValidateCall.new, if_neg haddr] at hresult
      cases hresult
  cases hpc : s.pc with
  | done result =>
    rw [hpc] at hkept hbudget
    have hnew : (ValidateCall.new addr).pc = .done false ∧ addr = 0 ∨
        (ValidateCall.new addr).pc = .loadRead ∧ addr ≠ 0 := by
      rw [ValidateCall.new]
      by_cases haddr : addr = 0
      · exact Or.inl ⟨if_pos haddr, haddr⟩
      · exact Or.inr ⟨if_neg haddr, haddr⟩
    rcases hnew with ⟨hnew, haddr⟩ | ⟨hnew, haddr⟩
    · refine ⟨?_, Or.inl (by rw [hnew]; rfl), ?_⟩
      · rw [hnew]
        exact hkept.stroll (by simp [ValidatePc.fds]) (by simp [ValidatePc.fds]) trivial rfl le_rfl
      · rw [hwrong, hnew]
        exact hbudget
    · refine ⟨?_, Or.inr haddr, ?_⟩
      · rw [hnew]
        exact hkept.stroll (by simp [ValidatePc.fds]) (by simp [ValidatePc.fds]) trivial rfl le_rfl
      · rw [hwrong, hnew]
        exact hbudget
  | loadRead | read | opening | loadWrite | write =>
    rw [hpc] at hover
    cases hover

/-- The call goes on. -/
theorem go (hcap : checkLength ≤ capacity) (h : Inv readable s) {answer : Answer}
    (hstep : s.step capacity readable (.go answer) = some s') : Inv readable s' := by
  obtain ⟨⟨w, pc⟩, hr, rfl⟩ := Option.map_eq_some_iff.mp hstep
  obtain ⟨hkept, hbegun, hbudget⟩ := h
  have hnext := ValidatePc.next_spec hr
  have hkept' : Kept w pc s.own := hkept.next hnext
  have haddr : s.addr ≠ 0 := by
    rcases hbegun with hover | haddr
    · cases hpc : s.pc with
      | done result =>
        rw [hpc] at hr
        cases answer <;> cases hr
      | loadRead | read | opening | loadWrite | write =>
        rw [hpc] at hover
        cases hover
    · exact haddr
  refine ⟨hkept', Or.inr haddr, ?_⟩
  have hdone : ∀ result, pc = .done result → Sound w pc := by
    rintro result rfl
    exact hkept.sound_of_done hnext
  by_cases hpipe : answer = .noPipe
  · subst hpipe
    -- the call returns, and its answer is paid for
    have hle := wrong_le readable s.answered s.addr pc
    refine Or.inr ⟨hdone false hnext.done_of_noPipe, ?_⟩
    simp only [if_pos]
    rcases hbudget with hlt | ⟨-, hle'⟩
    · omega
    · omega
  · simp only [if_neg hpipe, Nat.add_zero]
    rcases hbudget with hlt | ⟨hsound, hle⟩
    · by_cases hover : ∃ result, pc = .done result
      · obtain ⟨result, hresult⟩ := hover
        have hle := wrong_le readable s.answered s.addr pc
        exact Or.inr ⟨hdone result hresult, by omega⟩
      · have hsame : wrong readable (s.answered ++ pc.answer s.addr) =
            wrong readable s.answered :=
          wrong_of_right fun result hresult => absurd ⟨result, hresult⟩ hover
        exact Or.inl (hsame.trans_lt hlt)
    · refine Or.inr ⟨hkept.sound_next hsound hpipe hnext, ?_⟩
      rw [wrong_of_right]
      · exact hle
      · rintro result rfl
        exact hkept.eq_truth hsound hcap haddr hpipe hnext

/-- The application closes a descriptor. -/
theorem close (h : Inv readable s) (fd : ℤ)
    (hstep : s.step capacity readable (.close fd) = some s') : Inv readable s' := by
  cases hstep
  obtain ⟨hkept, hbegun, hbudget⟩ := h
  refine ⟨hkept.closed fd, hbegun, ?_⟩
  cases hforeign : s.foreign fd with
  | true =>
    refine Or.inl ?_
    rcases hbudget with hlt | ⟨-, hle⟩
    · exact Nat.lt_succ_of_lt hlt
    · exact Nat.lt_succ_of_le hle
  | false =>
    refine hbudget.imp_right fun ⟨hsound, hle⟩ => ⟨hsound.congr ?_ fun _ _ _ _ => rfl, hle⟩
    exact fun fd' hfd' => get?_close_of_not_foreign (hkept.mine fd' hfd') hforeign

/-- The application makes a pipe. -/
theorem pipe (h : Inv readable s) {readFd writeFd : ℤ} (hclear : Clear s (.pipe readFd writeFd))
    (hstep : s.step capacity readable (.pipe readFd writeFd) = some s') : Inv readable s' := by
  rw [step, Option.ite_none_right_eq_some, Option.some.injEq] at hstep
  obtain ⟨hunused, rfl⟩ := hstep
  obtain ⟨hkept, hbegun, hbudget⟩ := h
  refine ⟨hkept.piped hunused hclear, hbegun, ?_⟩
  refine hbudget.imp_right fun ⟨hsound, hle⟩ => ⟨hsound.congr ?_ ?_, hle⟩
  · intro fd hfd
    have hwrite : ¬writeFd = fd := fun heq => hclear.2 (heq ▸ hfd)
    have hread : ¬readFd = fd := fun heq => hclear.1 (heq ▸ hfd)
    rw [Kernel.get?_pipe2, if_neg hwrite, if_neg hread]
  · exact fun fd _ e he => hkept.holds.bytes_pipe2_of_some he

/-- The application uses one of its own. -/
theorem use (h : Inv readable s) {fd : ℤ} {n : ℕ}
    (hstep : s.step capacity readable (.use fd n) = some s') : Inv readable s' := by
  obtain ⟨e, he, rfl⟩ := Option.map_eq_some_iff.mp hstep
  obtain ⟨hkept, hbegun, hbudget⟩ := h
  refine ⟨hkept.used he n, hbegun, ?_⟩
  refine hbudget.imp_right fun ⟨hsound, hle⟩ => ⟨hsound.congr ?_ ?_, hle⟩
  · rw [Kernel.fds_use]
    exact fun _ _ => rfl
  · intro fd' hfd' e' he'
    exact Kernel.bytes_use_of_ne _ _ (hkept.holds.apart _ _ _ _ he (hkept.mine fd' hfd') he')

/-- **Every step keeps it**, where no number that is known is given away. -/
theorem step (hcap : checkLength ≤ capacity) (h : Inv readable s) {act : HostedAct}
    (hclear : Clear s act) (hstep : s.step capacity readable act = some s') : Inv readable s' := by
  cases act with
  | call addr => exact h.call hstep
  | go answer => exact h.go hcap hstep
  | pipe readFd writeFd => exact h.pipe hclear hstep
  | close fd => exact h.close fd hstep
  | use fd n => exact h.use hstep

theorem undisturbed (h : Inv readable s) : s.Undisturbed := h.kept.holds.same

theorem wrong_le_hits (h : Inv readable s) : wrong readable s.answered ≤ s.hits := by
  rcases h.budget with hlt | ⟨-, hle⟩
  · exact hlt.le
  · exact hle

end Inv

/-- **The application is not disturbed**, in any run in which no number that is known is given away:
whatever it closes and whenever, and whichever pipes cannot be made, each of its descriptors and
pipes is as it has left it, no other descriptor is open but those that the calls know, and there are
no more wrong answers than descriptors closed under the calls, and pipes that could not be made. -/
theorem undisturbed_of_reach {k : Kernel} (hcap : checkLength ≤ capacity) (hk : k.Holds k)
    (hreach : Machine.Reach (step capacity readable) Clear (init k) s) :
    s.Undisturbed ∧ s.Tidy ∧ wrong readable s.answered ≤ s.hits := by
  have hinv : Inv readable s :=
    hreach.invariant (Inv.init hk) fun _ _ _ h hclear hstep => h.step hcap hclear hstep
  exact ⟨hinv.undisturbed, hinv.kept.tidy, hinv.wrong_le_hits⟩

/-- A process with a pipe of its own. -/
def ownPipe : Kernel := (⟨Table.empty, fun _ => 0, 0⟩ : Kernel).pipe2 3 4

theorem holds_ownPipe : ownPipe.Holds ownPipe := by
  have hempty : Kernel.Holds ⟨Table.empty, fun _ => 0, 0⟩ ⟨Table.empty, fun _ => 0, 0⟩ :=
    .self (fun _ _ h => by cases h) fun _ _ h => by cases h
  have hunused : Kernel.Unused ⟨Table.empty, fun _ => 0, 0⟩ 3 4 := by decide
  exact .self (hempty.pipe2 hunused).nonneg (hempty.pipe2 hunused).made

/-- The call goes on for some steps. -/
def goes (n : ℕ) : List HostedAct := List.replicate n (.go .go)

/-- The write end is closed after the first call.  The second finds bytes in the pipe and cannot
write; the third makes a new one. -/
def closedUnder : List HostedAct :=
  [.call 4096] ++ goes 5 ++ [.go (.pipe 5 6)] ++ goes 4 ++ [.use 4 7, .close 6, .call 4096] ++
    goes 4 ++ [.call 4096] ++ goes 6 ++ [.go (.pipe 7 8)] ++ goes 4

theorem undisturbed_of_reach_closedUnder :
    ∃ s, Machine.run (step 65536 fun _ => true) (init ownPipe) closedUnder = some s ∧
      s.answered = [(4096, true), (4096, false), (4096, true)] ∧ s.hits = 1 ∧
      s.Undisturbed ∧ s.Tidy ∧ wrong (fun _ => true) s.answered ≤ s.hits := by
  have hvalues : (Machine.run (step 65536 fun _ => true) (init ownPipe) closedUnder).map
      (fun s => (s.answered, s.hits)) =
        some ([(4096, true), (4096, false), (4096, true)], 1) := by
    decide +kernel
  have hclear : Machine.Throughout (step 65536 fun _ => true) Clear (init ownPipe) closedUnder := by
    decide +kernel
  obtain ⟨s, hs, hpair⟩ := Option.map_eq_some_iff.mp hvalues
  obtain ⟨hanswered, hhits⟩ := Prod.mk.inj hpair
  exact ⟨s, hs, hanswered, hhits, undisturbed_of_reach (by decide) holds_ownPipe
    (Machine.Reach.of_throughout hclear hs)⟩

-- a number that is still stored, of a pipe that could not be made again, is given away: the next
-- call reads bytes that are the application's
example : (Machine.run (step 65536 fun _ => true) (init ownPipe)
    ([.call 4096] ++ goes 5 ++ [.go (.pipe 5 6)] ++ goes 4 ++ [.close 5, .call 4096] ++ goes 6 ++
      [.go .noPipe, .pipe 5 9, .use 9 20, .call 4096] ++ goes 2)).map
        (fun s => (s.own.bytes 2, s.shared.kernel.bytes 2)) = some (20, 4) := by
  decide +kernel

end Inv

end Hosted

end Rpprof
