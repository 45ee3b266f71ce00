import Rpprof.Profiler.Session
import Rpprof.Unwind.FramePointer

/-!
# The walk of the signal handler

The handler hands `TraceImpl::trace` a callback that keeps the frames it is given, up to a depth,
and says to stop at code that is blocked or when there is no more room.  With the frame pointers
the walk follows whatever memory holds; with framehop an unwinder that is not part of this program
asks for words of the stack and hands out frames.

Either way the handler ends by itself, reads only memory that was found readable, and keeps no more
frames than there is room for; and from a stack whose frame pointers are intact it keeps the return
addresses of that stack.

## Main definitions

* `Profiler.push` — the callback.
* `walk`, `handed` — a walk with a callback, and the frames it comes to if nobody stops it.
* `FramePointer.Intact` — a call stack in memory.
* `Framehop.trace` — the walk with an unwinder that only asks questions.

## Main results

* `Profiler.collect_eq_take` — what the callback keeps of a list of frames.
* `FramePointer.handled_walk` — **on any memory the handler's walk ends and is safe**.
* `FramePointer.handled_intact` — **from an intact stack it keeps the return addresses**.
* `Framehop.handled_frames` — **with any unwinder it is safe** as well.
-/

namespace Rpprof

/-! ### The callback -/

namespace Profiler

variable {β : Type*} {n : ℕ}

/-- The callback of `perf_signal_handler`, with the frames that it has kept. -/
def push (f : Features) (p : Profiler β n) (bt : List Frame) (frame : Frame) : List Frame × Bool :=
  if f.framePointer && p.isBlocklisted frame.ip then (bt, false)
  else if bt.length < f.maxDepth then (bt ++ [frame], true)
  else (bt, false)

/-- The callback stops at this frame, even if there is room. -/
def stopsAt (f : Features) (p : Profiler β n) (frame : Frame) : Bool :=
  f.framePointer && p.isBlocklisted frame.ip

variable {f : Features} {p : Profiler β n} {frame : Frame} {bt : List Frame}

theorem push_of_stopsAt (h : p.stopsAt f frame = true) : p.push f bt frame = (bt, false) :=
  if_pos h

theorem push_of_room (h : p.stopsAt f frame = false) (hroom : bt.length < f.maxDepth) :
    p.push f bt frame = (bt ++ [frame], true) := by
  rw [stopsAt] at h
  rw [push, h, if_neg Bool.false_ne_true, if_pos hroom]

theorem push_of_full (h : p.stopsAt f frame = false) (hfull : ¬bt.length < f.maxDepth) :
    p.push f bt frame = (bt, false) := by
  rw [stopsAt] at h
  rw [push, h, if_neg Bool.false_ne_true, if_neg hfull]

/-- What is collected is what the callback is handed, one frame after the other. -/
theorem collect_cons (frame : Frame) (rest bt : List Frame) :
    p.collect f (frame :: rest) bt =
      if (p.push f bt frame).2 then p.collect f rest (p.push f bt frame).1
      else (p.push f bt frame).1 := by
  rw [collect, push]
  split
  · rfl
  · split <;> rfl

/-- **The frames before the first that is blocked, as many as there is room for.** -/
theorem collect_eq_take (f : Features) (p : Profiler β n) (frames : List Frame) :
    ∀ bt : List Frame, bt.length ≤ f.maxDepth → p.collect f frames bt =
      bt ++ (frames.takeWhile fun frame => !p.stopsAt f frame).take (f.maxDepth - bt.length) := by
  induction frames with
  | nil =>
    intro bt _
    rw [collect, List.takeWhile_nil, List.take_nil, List.append_nil]
  | cons frame frames ih =>
    intro bt hbt
    rw [collect_cons]
    cases hstop : p.stopsAt f frame with
    | true =>
      rw [push_of_stopsAt hstop, if_neg Bool.false_ne_true,
        List.takeWhile_cons_of_neg (by rw [hstop]; decide), List.take_nil, List.append_nil]
    | false =>
      rw [List.takeWhile_cons, hstop, Bool.not_false, if_pos rfl]
      by_cases hroom : bt.length < f.maxDepth
      · have hleft : f.maxDepth - bt.length = f.maxDepth - (bt ++ [frame]).length + 1 := by
          rw [List.length_append, List.length_singleton]
          omega
        have hlength : (bt ++ [frame]).length ≤ f.maxDepth := by
          rw [List.length_append, List.length_singleton]
          omega
        rw [push_of_room hstop hroom, if_pos rfl, ih _ hlength, hleft, List.take_succ_cons,
          List.append_assoc, List.singleton_append]
      · have hnone : f.maxDepth - bt.length = 0 := by omega
        rw [push_of_full hstop hroom, if_neg Bool.false_ne_true, hnone, List.take_zero,
          List.append_nil]

theorem length_collect_le (f : Features) (p : Profiler β n) (frames : List Frame) :
    (p.collect f frames []).length ≤ f.maxDepth := by
  rw [collect_eq_take f p frames [] (Nat.zero_le _), List.nil_append, List.length_take]
  exact Nat.min_le_left _ _

end Profiler

/-! ### A walk with a callback -/

section Walk

variable {ω σ β : Type*} {n : ℕ}

/-- A walk over frames until there are no more or the callback says to stop, with a bound on its
rounds: the callback's state in the end, and the addresses that were read. -/
def walk (next : ω → Option (Frame × ω) × List ℕ) (cb : σ → Frame → σ × Bool) :
    ℕ → ω → σ → Option (σ × List ℕ)
  | 0, _, _ => none
  | fuel + 1, place, st =>
    match next place with
    | (none, reads) => some (st, reads)
    | (some (frame, place), reads) =>
      match cb st frame with
      | (st, false) => some (st, reads)
      | (st, true) => (walk next cb fuel place st).map fun (st, more) => (st, reads ++ more)

/-- The frames that a walk comes to, if nobody stops it. -/
def handed (next : ω → Option (Frame × ω) × List ℕ) : ℕ → ω → List Frame
  | 0, _ => []
  | fuel + 1, place =>
    match (next place).1 with
    | none => []
    | some (frame, place) => frame :: handed next fuel place

/-- **Each frame takes up room or is the last**, so that the room and one more are rounds enough:
the walk of the handler ends, with what its callback collects, and has read no more than its
rounds may read. -/
theorem walk_push (f : Features) (p : Profiler β n) (next : ω → Option (Frame × ω) × List ℕ)
    {P : ℕ → Prop} (hreads : ∀ place, ∀ a ∈ (next place).2, P a) (fuel : ℕ) :
    ∀ (place : ω) (bt : List Frame), bt.length ≤ f.maxDepth → f.maxDepth < bt.length + fuel →
      ∃ reads, walk next (p.push f) fuel place bt =
          some (p.collect f (handed next fuel place) bt, reads) ∧ ∀ a ∈ reads, P a := by
  induction fuel with
  | zero => exact fun _ bt hbt hfuel => absurd hbt (not_le.mpr hfuel)
  | succ fuel ih =>
    intro place bt hbt hfuel
    have hround := hreads place
    rw [walk, handed]
    cases hnext : next place with
    | mk found reads =>
      rw [hnext] at hround
      cases found with
      | none => exact ⟨reads, rfl, hround⟩
      | some found =>
        obtain ⟨frame, place'⟩ := found
        simp only [Profiler.collect_cons]
        cases hstop : p.stopsAt f frame with
        | true =>
          rw [Profiler.push_of_stopsAt hstop]
          exact ⟨reads, rfl, hround⟩
        | false =>
          by_cases hroom : bt.length < f.maxDepth
          · have hlength : (bt ++ [frame]).length = bt.length + 1 := List.length_append
            obtain ⟨more, hwalk, hmore⟩ := ih place' (bt ++ [frame]) (by omega) (by omega)
            rw [Profiler.push_of_room hstop hroom]
            simp only [hwalk, Option.map_some, if_true]
            exact ⟨reads ++ more, rfl, fun a ha =>
              (List.mem_append.mp ha).elim (hround a) (hmore a)⟩
          · rw [Profiler.push_of_full hstop hroom]
            exact ⟨reads, rfl, hround⟩

end Walk

/-- What was found valid can be read, both words of it. -/
theorem Image.readable_of_validate {m : Image} {a : ℕ} (h : m.validate a = true) {i : ℕ}
    (hi : i < checkLength) : m.readable (a + i) = true := by
  rw [Image.validate, Bool.and_eq_true, Kernel.readableAt, List.all_eq_true] at h
  exact h.2 i (List.mem_range.mpr hi)

/-! ### Frame pointers -/

namespace FramePointer

/-- The return address of a frame in memory, with the function that it lies in. -/
def frameAt (enclosing : ℕ → ℕ) (m : Image) (framePointer : ℕ) : Rpprof.Frame :=
  ⟨(readPtr m framePointer).ret, enclosing (readPtr m framePointer).ret⟩

/-- One round of the loop, from a frame pointer and the one before it. -/
def next (m : Image) (enclosing : ℕ → ℕ) :
    ℕ × ℕ → Option (Rpprof.Frame × ℕ × ℕ) × List ℕ
  | (framePointer, lastFramePointer) =>
    if lastFramePointer ≠ 0 ∧ framePointer < lastFramePointer then (none, [])
    else if m.validate framePointer = false then (none, [])
    else
      (some (frameAt enclosing m framePointer, (readPtr m framePointer).framePointer, framePointer),
        [framePointer])

/-- The callback of the handler, for frames of this walk. -/
def pushFrame {β : Type*} {n : ℕ} (enclosing : ℕ → ℕ) (f : Features) (p : Profiler β n)
    (bt : List Rpprof.Frame) (frame : Frame) : List Rpprof.Frame × Bool :=
  p.push f bt ⟨frame.ip, enclosing frame.ip⟩

/-- What the walk hands to the callback, if nobody stops it. -/
def frames (m : Image) (enclosing : ℕ → ℕ) (bound : ℕ) : Option ℕ → List Rpprof.Frame
  | none => []
  | some framePointer => handed (next m enclosing) bound (framePointer, 0)

section Walk

variable {β : Type*} {n : ℕ} {m : Image} {enclosing : ℕ → ℕ} {f : Features} {p : Profiler β n}
  {framePointer last : ℕ}

theorem next_of_stop (h : last ≠ 0 ∧ framePointer < last ∨ m.validate framePointer = false) :
    next m enclosing (framePointer, last) = (none, []) := by
  rw [next]
  split_ifs with hdown hvalid
  · rfl
  · rfl
  · exact absurd h (not_or.mpr ⟨hdown, hvalid⟩)

theorem next_of_go (hdown : ¬(last ≠ 0 ∧ framePointer < last))
    (hvalid : m.validate framePointer = true) :
    next m enclosing (framePointer, last) =
      (some (frameAt enclosing m framePointer, (readPtr m framePointer).framePointer, framePointer),
        [framePointer]) := by
  rw [next, if_neg hdown, if_neg (by rw [hvalid]; decide)]

/-- Only what was found valid is read. -/
theorem validate_of_next (m : Image) (enclosing : ℕ → ℕ) (place : ℕ × ℕ) :
    ∀ a ∈ (next m enclosing place).2, m.validate a = true := by
  obtain ⟨framePointer, last⟩ := place
  intro a ha
  rw [next] at ha
  split_ifs at ha with hdown hvalid
  · exact absurd ha List.not_mem_nil
  · exact absurd ha List.not_mem_nil
  · rw [List.mem_singleton.mp ha]
    exact Bool.not_eq_false _ ▸ hvalid

/-- The loop is a walk. -/
theorem loop_eq_walk (m : Image) (enclosing : ℕ → ℕ) (f : Features) (p : Profiler β n)
    (fuel : ℕ) : ∀ (framePointer last : ℕ) (bt : List Rpprof.Frame),
    loop m (pushFrame enclosing f p) fuel framePointer last bt =
      walk (next m enclosing) (p.push f) fuel (framePointer, last) bt := by
  induction fuel with
  | zero => exact fun _ _ _ => rfl
  | succ fuel ih =>
    intro framePointer last bt
    rw [loop, walk]
    by_cases hdown : last ≠ 0 ∧ framePointer < last
    · rw [if_pos hdown, next_of_stop (Or.inl hdown)]
    cases hvalid : m.validate framePointer with
    | false => rw [if_neg hdown, if_pos rfl, next_of_stop (Or.inr hvalid)]
    | true =>
      rw [if_neg hdown, if_neg (by decide), next_of_go hdown hvalid]
      have hcb : pushFrame enclosing f p bt ⟨(readPtr m framePointer).ret⟩ =
          p.push f bt (frameAt enclosing m framePointer) := rfl
      simp only [hcb, ih]
      rfl

/-- **On any memory the walk of the handler ends and is safe**: within one round more than there is
room for frames, having read only readable memory, with the frames that the saved frame pointers
lead to, as far as the first that is blocked and as many as there is room for. -/
theorem handled_walk (m : Image) (enclosing : ℕ → ℕ) (f : Features) (p : Profiler β n)
    (ucontext : Option ℕ) :
    ∃ visited, trace m (pushFrame enclosing f p) (f.maxDepth + 1) ucontext [] =
        some (((frames m enclosing (f.maxDepth + 1) ucontext).takeWhile
          fun frame => !p.stopsAt f frame).take f.maxDepth, visited) ∧
      ∀ a ∈ visited, ∀ i < checkLength, m.readable (a + i) = true := by
  cases ucontext with
  | none =>
    refine ⟨[], ?_, fun a ha => absurd ha List.not_mem_nil⟩
    rw [trace, frames, List.takeWhile_nil, List.take_nil]
  | some framePointer =>
    obtain ⟨visited, hwalk, hvalid⟩ := walk_push f p (next m enclosing)
      (validate_of_next m enclosing) (f.maxDepth + 1) (framePointer, 0) [] (Nat.zero_le _)
      (by rw [List.length_nil]; omega)
    refine ⟨visited, ?_, fun a ha i hi => Image.readable_of_validate (hvalid a ha) hi⟩
    rw [trace, loop_eq_walk, hwalk, Profiler.collect_eq_take f p _ [] (Nat.zero_le _),
      List.nil_append, List.length_nil, Nat.sub_zero, frames]

/-! ### An intact stack -/

/-- A call stack in memory: each frame's saved frame pointer leads up to the frame of its caller,
and that of the outermost frame leads nowhere. -/
inductive Intact (m : Image) : ℕ → List ℕ → Prop where
  | outermost {framePointer : ℕ} : m.validate framePointer = true →
      ((readPtr m framePointer).framePointer < framePointer ∨
        m.validate (readPtr m framePointer).framePointer = false) →
      Intact m framePointer [framePointer]
  | call {framePointer : ℕ} {callers : List ℕ} : m.validate framePointer = true →
      framePointer ≤ (readPtr m framePointer).framePointer →
      Intact m (readPtr m framePointer).framePointer callers →
      Intact m framePointer (framePointer :: callers)

/-- The walk leads through the frames of the stack. -/
theorem Intact.handed {stack : List ℕ} (h : Intact m framePointer stack) :
    ∀ (fuel : ℕ) {last : ℕ}, ¬(last ≠ 0 ∧ framePointer < last) →
      handed (next m enclosing) fuel (framePointer, last) =
        (stack.map (frameAt enclosing m)).take fuel := by
  induction h with
  | @outermost framePointer hvalid hend =>
    intro fuel last hdown
    cases fuel with
    | zero => rfl
    | succ fuel =>
      have hstop : framePointer ≠ 0 ∧ (readPtr m framePointer).framePointer < framePointer ∨
          m.validate (readPtr m framePointer).framePointer = false :=
        hend.imp_left fun hlt => ⟨Image.ne_zero_of_validate hvalid, hlt⟩
      rw [Rpprof.handed, next_of_go hdown hvalid, List.map_singleton, List.take_succ_cons,
        List.take_nil]
      cases fuel with
      | zero => rfl
      | succ fuel =>
        simp only [Rpprof.handed]
        rw [next_of_stop hstop]
  | @call framePointer callers hvalid hle _ ih =>
    intro fuel last hdown
    cases fuel with
    | zero => rfl
    | succ fuel =>
      rw [Rpprof.handed, next_of_go hdown hvalid, List.map_cons, List.take_succ_cons]
      simp only [ih fuel fun hlt => absurd hle (not_le.mpr hlt.2)]

/-- From an intact stack the callback keeps the return addresses of the stack. -/
theorem collect_of_intact {stack : List ℕ} (h : Intact m framePointer stack) (enclosing : ℕ → ℕ)
    (f : Features) (p : Profiler β n) :
    p.collect f (frames m enclosing (f.maxDepth + 1) (some framePointer)) [] =
      ((stack.map (frameAt enclosing m)).takeWhile fun frame => !p.stopsAt f frame).take
        f.maxDepth := by
  rw [Profiler.collect_eq_take f p _ [] (Nat.zero_le _), List.nil_append, List.length_nil,
    Nat.sub_zero, frames, h.handed (f.maxDepth + 1) fun hlt => hlt.1 rfl,
    ← List.take_takeWhile, List.take_take, Nat.min_eq_left (Nat.le_succ _)]

end Walk

section Handler

variable {β : Type*} {n : ℕ} [MemImage β (Entry UnresolvedFrames)] [NeZero n]

/-- What the handler samples is what its callback keeps. -/
theorem frames_of_sampled {f : Features} {hash : UnresolvedFrames → ℕ} {s s' : Process β n}
    {t : Tick} {k : UnresolvedFrames}
    (h : s.perfSignalHandler f hash t = some (s', .sampled k)) :
    k.frames = s.profiler.collect f t.trace [] := by
  unfold Process.perfSignalHandler at h
  split at h
  · cases h
  split at h
  · cases h
  simp only at h
  split at h
  · cases h
  split at h
  · cases h
  split at h
  · cases h
  · next frames hnew =>
    cases h
    unfold UnresolvedFrames.new at hnew
    split at hnew
    · cases hnew
      rfl
    · cases hnew

/-- **A sample is the call stack.**  Interrupted in a function whose stack is intact, the handler
records the return addresses of its callers, innermost first, as far as the first in blocked code
and as many as there is room for. -/
theorem handled_intact {f : Features} {hash : UnresolvedFrames → ℕ} {s s' : Process β n} {t : Tick}
    {k : UnresolvedFrames} {m : Image} {enclosing : ℕ → ℕ} {framePointer : ℕ} {stack : List ℕ}
    (hstack : Intact m framePointer stack)
    (htrace : t.trace = frames m enclosing (f.maxDepth + 1) (some framePointer))
    (hsampled : s.perfSignalHandler f hash t = some (s', .sampled k)) :
    k.frames = ((stack.map (frameAt enclosing m)).takeWhile
      fun frame => !s.profiler.stopsAt f frame).take f.maxDepth := by
  rw [frames_of_sampled hsampled, htrace, collect_of_intact hstack]

/-- Two frames, of a function at 4096 and its caller at 8192, whose saved frame pointer is zero. -/
def twoFrames : Image where
  readable := fun addr => decide (4096 ≤ addr ∧ addr < 8208)
  byte := fun addr => if addr = 4097 then 32 else if addr = 4104 then 5 else
    if addr = 8200 then 9 else 0

/-- A tick on a thread that is interrupted there. -/
def tickInTwoFrames : Tick :=
  { Session.tickAt false 50 97 with trace := frames twoFrames id 129 (some 4096) }

theorem handled_intact_twoFrames :
    letI : MemImage (Entry UnresolvedFrames) (Entry UnresolvedFrames) := MemImage.cell _
    ∃ s' k, Session.idleProcess.perfSignalHandler ⟨true, 128⟩ (UnresolvedFrames.hash List.sum)
        tickInTwoFrames = some (s', .sampled k) ∧ k.frames = [⟨5, 5⟩, ⟨9, 9⟩] := by
  let _ : MemImage (Entry UnresolvedFrames) (Entry UnresolvedFrames) := MemImage.cell _
  have hstack : Intact twoFrames 4096 [4096, 8192] :=
    Intact.call (by decide) (by decide) (Intact.outermost (by decide) (Or.inl (by decide)))
  have hsampled : ((Session.idleProcess.perfSignalHandler ⟨true, 128⟩
      (UnresolvedFrames.hash List.sum) tickInTwoFrames).bind fun r => r.2.frames?).isSome =
      true := by decide +kernel
  obtain ⟨k, hk⟩ := Option.isSome_iff_exists.mp hsampled
  obtain ⟨⟨s', exit⟩, hs, hexit⟩ := Option.bind_eq_some_iff.mp hk
  cases exit with
  | sampled k' =>
    refine ⟨s', k', hs, (handled_intact hstack rfl hs).trans ?_⟩
    decide +kernel
  | missed => cases hexit
  | addressBlocked => cases hexit
  | threadBlocked => cases hexit

end Handler

end FramePointer

/-! ### Framehop -/

namespace Framehop

/-- A call of the frame iterator's `next`: it asks for words of the stack, one after the other,
until it comes to a frame or to the end, with or without an error. -/
inductive Next (υ : Type*) where
  | readStack (addr : ℕ) (rest : Option ℕ → Next υ)
  | frame (address : ℕ) (iter : υ)
  | finished

/-- `read_stack`, with what it reads: the word at the address rounded down. -/
def readStack (m : Image) (addr : ℕ) : Option ℕ × List ℕ :=
  let alignedAddr := addr - addr % 8
  if m.validate alignedAddr then (some (m.word alignedAddr), [alignedAddr]) else (none, [])

variable {υ : Type*}

/-- The answer of a call of `next`, when its questions are answered by `read_stack`. -/
def ask (m : Image) : Next υ → Option (ℕ × υ) × List ℕ
  | .readStack addr rest =>
    ((ask m (rest (readStack m addr).1)).1,
      (readStack m addr).2 ++ (ask m (rest (readStack m addr).1)).2)
  | .frame address iter => (some (address, iter), [])
  | .finished => (none, [])

/-- One round of the loop in `iter_frames`. -/
def next (unwind : υ → Next υ) (m : Image) (enclosing : ℕ → ℕ) (iter : υ) :
    Option (Frame × υ) × List ℕ :=
  ((ask m (unwind iter)).1.map fun (address, iter) => (⟨address, enclosing address⟩, iter),
    (ask m (unwind iter)).2)

/-- `Trace::trace`, when the unwinder is held or not, for the iterator that starts at the registers
in the context, if there is a context. -/
def trace {σ : Type*} (unwind : υ → Next υ) (m : Image) (enclosing : ℕ → ℕ)
    (cb : σ → Frame → σ × Bool) (fuel : ℕ) (held : Bool) (ctx : Option υ) (st : σ) :
    Option (σ × List ℕ) :=
  match held, ctx with
  | true, _ => some (st, [])
  | false, none => some (st, [])
  | false, some iter => walk (next unwind m enclosing) cb fuel iter st

/-- The frames that the unwinder hands out, if nobody stops it. -/
def frames (unwind : υ → Next υ) (m : Image) (enclosing : ℕ → ℕ) (bound : ℕ) (held : Bool)
    (ctx : Option υ) : List Frame :=
  match held, ctx with
  | true, _ => []
  | false, none => []
  | false, some iter => handed (next unwind m enclosing) bound iter

/-- Whatever is asked for, what is read is aligned and was found valid. -/
theorem aligned_of_ask (m : Image) (asked : Next υ) :
    ∀ a ∈ (ask m asked).2, a % 8 = 0 ∧ m.validate a = true := by
  induction asked with
  | readStack addr rest ih =>
    intro a ha
    rw [ask] at ha
    rcases List.mem_append.mp ha with ha | ha
    · simp only [readStack] at ha
      split at ha
      · next hvalid =>
        rw [List.mem_singleton.mp ha]
        exact ⟨by omega, hvalid⟩
      · exact absurd ha List.not_mem_nil
    · exact ih _ a ha
  | frame address iter => exact fun a ha => absurd ha List.not_mem_nil
  | finished => exact fun a ha => absurd ha List.not_mem_nil

/-- **With any unwinder the walk of the handler ends and is safe**: whatever words of the stack it
asks for and whatever frames it makes of them, only aligned and readable words are read, and the
frames before the first that is blocked are kept, as many as there is room for. -/
theorem handled_frames {β : Type*} {n : ℕ} (unwind : υ → Next υ) (m : Image) (enclosing : ℕ → ℕ)
    (f : Features) (p : Profiler β n) (held : Bool) (ctx : Option υ) :
    ∃ reads, trace unwind m enclosing (p.push f) (f.maxDepth + 1) held ctx [] =
        some (((frames unwind m enclosing (f.maxDepth + 1) held ctx).takeWhile
          fun frame => !p.stopsAt f frame).take f.maxDepth, reads) ∧
      ∀ a ∈ reads, a % 8 = 0 ∧ ∀ i < checkLength, m.readable (a + i) = true := by
  have hstop : ∃ reads : List ℕ, some (([] : List Frame), ([] : List ℕ)) =
      some ((([] : List Frame).takeWhile fun frame => !p.stopsAt f frame).take f.maxDepth, reads) ∧
      ∀ a ∈ reads, a % 8 = 0 ∧ ∀ i < checkLength, m.readable (a + i) = true :=
    ⟨[], by rw [List.takeWhile_nil, List.take_nil], fun a ha => absurd ha List.not_mem_nil⟩
  cases held with
  | true => exact hstop
  | false =>
    cases ctx with
    | none => exact hstop
    | some iter =>
      obtain ⟨reads, hwalk, hvalid⟩ := walk_push f p (next unwind m enclosing)
        (fun place => aligned_of_ask m (unwind place)) (f.maxDepth + 1) iter [] (Nat.zero_le _)
        (by rw [List.length_nil]; omega)
      refine ⟨reads, ?_, fun a ha =>
        ⟨(hvalid a ha).1, fun i hi => Image.readable_of_validate (hvalid a ha).2 hi⟩⟩
      rw [trace, hwalk, Profiler.collect_eq_take f p _ [] (Nat.zero_le _), List.nil_append,
        List.length_nil, Nat.sub_zero, frames]

end Framehop

end Rpprof
