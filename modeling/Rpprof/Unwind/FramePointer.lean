import Mathlib.Data.Nat.Digits.Lemmas
import Rpprof.Unwind.Validate

/-!
# Walking the frame pointers

Each frame starts with the saved frame pointer of its caller and the return address.  The walk
follows the saved pointers from the interrupted function's on, through whatever memory holds, as
long as they are valid and do not go down.

## Main definitions

* `Image` — a memory image, and what can be read from it.
* `FramePointer.trace` — the walk, with the addresses of the frames it reads.
* `FramePointer.OnChain` — the frames that the saved pointers lead to.
* `FramePointer.Walks` — the walk ends and goes up all the way, whatever the callback.

## Main results

* `FramePointer.trace_of_noLoop` — it does if no frame on the chain is its own caller.
* `FramePointer.loop_eq_none` — otherwise it never ends, for a callback that always goes on.
* `FramePointer.walks_iff` — **the two together**.
-/

namespace Rpprof

/-- A memory image: the bytes that can be read, and all bytes. -/
structure Image where
  readable : ℕ → Bool
  byte : ℕ → UInt8

namespace Image

/-- What `validate` answers. -/
def validate (m : Image) (addr : ℕ) : Bool :=
  decide (addr ≠ 0) && Kernel.readableAt m.readable addr

/-- The word at an address, least significant byte first. -/
def word (m : Image) (addr : ℕ) : ℕ :=
  Nat.ofDigits 256 ((List.range 8).map fun i => (m.byte (addr + i)).toNat)

theorem word_lt (m : Image) (addr : ℕ) : m.word addr < 2 ^ 64 := by
  have hlt := Nat.ofDigits_lt_base_pow_length (b := 256)
    (l := (List.range 8).map fun i => (m.byte (addr + i)).toNat) (by decide) fun d hd => by
      obtain ⟨i, -, rfl⟩ := List.mem_map.mp hd
      exact (m.byte (addr + i)).toNat_lt
  rw [List.length_map, List.length_range] at hlt
  exact hlt

theorem ne_zero_of_validate {m : Image} {addr : ℕ} (h : m.validate addr = true) : addr ≠ 0 := by
  rw [validate, Bool.and_eq_true] at h
  exact of_decide_eq_true h.1

end Image

namespace FramePointer

/-- `frame_pointer::Frame`. -/
structure Frame where
  ip : ℕ
deriving DecidableEq, Repr

/-- `FramePointerLayout`. -/
structure Layout where
  framePointer : ℕ
  ret : ℕ

/-- `read_ptr` of a frame. -/
def readPtr (m : Image) (framePointer : ℕ) : Layout :=
  ⟨m.word framePointer, m.word (framePointer + 8)⟩

/-- The loop, with a bound on its rounds: the callback's state in the end, and the addresses of
the frames that were read. -/
def loop {σ : Type} (m : Image) (cb : σ → Frame → σ × Bool) :
    ℕ → ℕ → ℕ → σ → Option (σ × List ℕ)
  | 0, _, _, _ => none
  | fuel + 1, framePointer, lastFramePointer, st =>
    if lastFramePointer ≠ 0 ∧ framePointer < lastFramePointer then some (st, [])
    else if m.validate framePointer = false then some (st, [])
    else
      match cb st ⟨(readPtr m framePointer).ret⟩ with
      | (st, false) => some (st, [framePointer])
      | (st, true) =>
        (loop m cb fuel (readPtr m framePointer).framePointer framePointer st).map
          fun (st, visited) => (st, framePointer :: visited)

/-- `Trace::trace`, for the frame pointer in the context, if there is a context. -/
def trace {σ : Type} (m : Image) (cb : σ → Frame → σ × Bool) (fuel : ℕ) (ucontext : Option ℕ)
    (st : σ) : Option (σ × List ℕ) :=
  match ucontext with
  | none => some (st, [])
  | some framePointer => loop m cb fuel framePointer 0 st

/-- The walk ends, and the frames it reads lie at increasing addresses, whatever the callback. -/
def Walks (m : Image) (ucontext : Option ℕ) : Prop :=
  ∀ (σ : Type) (cb : σ → Frame → σ × Bool) (st : σ), ∃ fuel st' visited,
    trace m cb fuel ucontext st = some (st', visited) ∧ visited.Pairwise (· < ·)

/-- The valid frames that the saved frame pointers lead to without going down. -/
inductive OnChain (m : Image) (start : ℕ) : ℕ → Prop where
  | start : m.validate start = true → OnChain m start start
  | next {framePointer : ℕ} : OnChain m start framePointer →
      framePointer ≤ (readPtr m framePointer).framePointer →
      m.validate (readPtr m framePointer).framePointer = true →
      OnChain m start (readPtr m framePointer).framePointer

/-- No frame that is reached has its own address for its caller's. -/
def NoLoop (m : Image) (ucontext : Option ℕ) : Prop :=
  ∀ start ∈ ucontext, ∀ framePointer, OnChain m start framePointer →
    (readPtr m framePointer).framePointer ≠ framePointer

theorem OnChain.validate {m : Image} {start framePointer : ℕ} (h : OnChain m start framePointer) :
    m.validate framePointer = true := by
  cases h with
  | start hvalid => exact hvalid
  | next _ _ hvalid => exact hvalid

/-! ### The walk ends -/

section Ends

variable {σ : Type} {m : Image} {start framePointer last bound : ℕ} {st : σ}

/-- The loop ends, and the frames it reads lie at increasing addresses from a bound on. -/
def ClimbsFrom (m : Image) (cb : σ → Frame → σ × Bool) (framePointer last : ℕ) (st : σ)
    (bound : ℕ) : Prop :=
  ∃ fuel st' visited, loop m cb fuel framePointer last st = some (st', visited) ∧
    visited.Pairwise (· < ·) ∧ ∀ a ∈ visited, bound ≤ a

/-- A round that reads nothing is the last. -/
theorem ClimbsFrom.of_stop (cb : σ → Frame → σ × Bool)
    (h : last ≠ 0 ∧ framePointer < last ∨ m.validate framePointer = false) :
    ClimbsFrom m cb framePointer last st bound := by
  refine ⟨1, st, [], ?_, List.Pairwise.nil, fun a ha => absurd ha List.not_mem_nil⟩
  rw [loop]
  split_ifs with hdown hvalid
  · rfl
  · rfl
  · exact absurd h (not_or.mpr ⟨hdown, hvalid⟩)

/-- A round that reads a frame, and the rounds above it if the callback goes on. -/
theorem ClimbsFrom.of_frame {cb : σ → Frame → σ × Bool}
    (hdown : ¬(last ≠ 0 ∧ framePointer < last)) (hvalid : m.validate framePointer = true)
    (hrest : ∀ st', ClimbsFrom m cb (readPtr m framePointer).framePointer framePointer st'
      (framePointer + 1)) :
    ClimbsFrom m cb framePointer last st framePointer := by
  have hread : ¬m.validate framePointer = false := by simp [hvalid]
  cases hcb : cb st ⟨(readPtr m framePointer).ret⟩ with
  | mk st' more =>
    cases more with
    | false =>
      refine ⟨1, st', [framePointer], ?_, List.pairwise_singleton _ _, ?_⟩
      · rw [loop, if_neg hdown, if_neg hread, hcb]
      · intro a ha
        rw [List.mem_singleton.mp ha]
    | true =>
      obtain ⟨fuel, st'', visited, hloop, hsorted, hle⟩ := hrest st'
      refine ⟨fuel + 1, st'', framePointer :: visited, ?_,
        List.pairwise_cons.mpr ⟨hle, hsorted⟩, ?_⟩
      · rw [loop, if_neg hdown, if_neg hread, hcb]
        simp only [hloop, Option.map_some]
      · intro a ha
        rcases List.mem_cons.mp ha with rfl | ha
        · exact le_rfl
        · exact (Nat.lt_of_succ_le (hle a ha)).le

/-- **Where no frame is its own caller, every round goes up**, and addresses are bounded. -/
theorem climbsFrom_of_noLoop (cb : σ → Frame → σ × Bool)
    (hnoLoop : ∀ framePointer, OnChain m start framePointer →
      (readPtr m framePointer).framePointer ≠ framePointer) (n : ℕ) :
    ∀ {framePointer last : ℕ} (st : σ), 2 ^ 64 - framePointer < n →
      (¬(last ≠ 0 ∧ framePointer < last) → m.validate framePointer = true →
        OnChain m start framePointer) → ClimbsFrom m cb framePointer last st framePointer := by
  induction n with
  | zero => exact fun _ hn => absurd hn (Nat.not_lt_zero _)
  | succ n ih =>
    intro framePointer last st hn hchain
    by_cases hdown : last ≠ 0 ∧ framePointer < last
    · exact ClimbsFrom.of_stop cb (Or.inl hdown)
    cases hvalid : m.validate framePointer with
    | false => exact ClimbsFrom.of_stop cb (Or.inr hvalid)
    | true =>
      have hon := hchain hdown hvalid
      have hword : (readPtr m framePointer).framePointer < 2 ^ 64 := m.word_lt framePointer
      refine ClimbsFrom.of_frame hdown hvalid fun st' => ?_
      rcases lt_or_gt_of_ne (hnoLoop framePointer hon) with hlt | hgt
      · -- down: the next round is the last
        exact ClimbsFrom.of_stop cb (Or.inl ⟨Image.ne_zero_of_validate hvalid, hlt⟩)
      · obtain ⟨fuel, st'', visited, hloop, hsorted, hle⟩ :=
          ih st' (by omega) fun _ => OnChain.next hon hgt.le
        exact ⟨fuel, st'', visited, hloop, hsorted, fun a ha => hgt.trans_le (hle a ha)⟩

/-- **A walk over a stack without such a frame ends**, and goes up all the way. -/
theorem walks_of_noLoop {m : Image} {ucontext : Option ℕ} (h : NoLoop m ucontext) :
    Walks m ucontext := by
  intro σ cb st
  cases ucontext with
  | none => exact ⟨0, st, [], rfl, List.Pairwise.nil⟩
  | some start =>
    obtain ⟨fuel, st', visited, hloop, hsorted, -⟩ :=
      climbsFrom_of_noLoop cb (h start rfl) (2 ^ 64 - start + 1) st (Nat.lt_succ_self _)
        fun _ hvalid => OnChain.start hvalid
    exact ⟨fuel, st', visited, hloop, hsorted⟩

end Ends

/-! ### The walk does not end -/

section Endless

variable {m : Image} {start framePointer last : ℕ}

/-- The callback that always goes on. -/
def always (_ : Unit) (_ : Frame) : Unit × Bool := ((), true)

/-- No number of rounds is enough from here. -/
def Endless (m : Image) (framePointer last : ℕ) : Prop :=
  ∀ fuel, loop m always fuel framePointer last () = none

/-- A round leads to the next. -/
theorem loop_always (hup : last ≠ 0 → last ≤ framePointer) (hvalid : m.validate framePointer = true)
    (fuel : ℕ) : loop m always (fuel + 1) framePointer last () =
      (loop m always fuel (readPtr m framePointer).framePointer framePointer ()).map
        fun (st, visited) => (st, framePointer :: visited) := by
  have hdown : ¬(last ≠ 0 ∧ framePointer < last) := fun h => absurd (hup h.1) (not_le.mpr h.2)
  rw [loop, if_neg hdown, if_neg (by simp [hvalid])]
  rfl

/-- A frame that is its own caller is read over and over. -/
theorem endless_of_self (hvalid : m.validate framePointer = true)
    (hself : (readPtr m framePointer).framePointer = framePointer) :
    ∀ {last : ℕ}, (last ≠ 0 → last ≤ framePointer) → Endless m framePointer last := by
  intro last hup fuel
  induction fuel generalizing last with
  | zero => rfl
  | succ fuel ih =>
    rw [loop_always hup hvalid, hself, ih fun _ => le_rfl]
    rfl

/-- A walk that does not end from a frame on the chain does not end from its start. -/
theorem endless_of_onChain (hchain : OnChain m start framePointer)
    (h : ∀ last, (last ≠ 0 → last ≤ framePointer) → Endless m framePointer last) :
    Endless m start 0 := by
  induction hchain with
  | start hvalid => exact h 0 fun hne => absurd rfl hne
  | @next framePointer hon hle hvalid ih =>
    refine ih fun last hup fuel => ?_
    cases fuel with
    | zero => rfl
    | succ fuel =>
      rw [loop_always hup hon.validate, h _ (fun _ => hle) fuel]
      rfl

end Endless

/-- **The walk ends and goes up all the way if and only if no frame it reaches has its own address
for its caller's.** -/
theorem walks_iff (m : Image) (ucontext : Option ℕ) : Walks m ucontext ↔ NoLoop m ucontext := by
  refine ⟨fun h start hstart framePointer hon hself => ?_, walks_of_noLoop⟩
  obtain ⟨fuel, st', visited, htrace, -⟩ := h Unit always ()
  have hendless := endless_of_onChain hon fun last hup => endless_of_self hon.validate hself hup
  rw [Option.mem_def.mp hstart, trace, hendless fuel] at htrace
  cases htrace

/-- One frame at 4096, whose saved frame pointer is 4096. -/
def selfImage : Image where
  readable := fun addr => decide (4096 ≤ addr ∧ addr < 4112)
  byte := fun addr => if addr = 4097 then 16 else 0

/-- The callback that has room for so many frames. -/
def upTo (depth : ℕ) (index : ℕ) (_ : Frame) : ℕ × Bool :=
  if index < depth then (index + 1, true) else (index, false)

/-- The walk from this frame does not end by itself, and reports it as often as there is room. -/
theorem not_walks_self :
    trace selfImage (upTo 3) 4 (some 4096) 0 = some (3, [4096, 4096, 4096, 4096]) ∧
    (∀ fuel, trace selfImage always fuel (some 4096) () = none) ∧ ¬Walks selfImage (some 4096) := by
  have hendless : Endless selfImage 4096 0 :=
    endless_of_self (by decide) (by decide) fun h => absurd rfl h
  refine ⟨by decide, hendless, fun h => ?_⟩
  obtain ⟨fuel, st', visited, htrace, -⟩ := h Unit always ()
  rw [trace, hendless fuel] at htrace
  cases htrace

end FramePointer

end Rpprof
