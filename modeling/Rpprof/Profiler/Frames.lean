import Mathlib.Data.List.Basic
import Mathlib.Data.Nat.Notation

/-!
# Backtraces, as captured and as resolved

What the signal handler captures is a list of frames with the thread they were taken
on; equality looks at the symbol addresses and the thread id only.  What a report shows
is the same backtrace with each frame resolved to symbols; equality looks at the raw
names, the thread's name and id, and the time the sample was taken.

Symbol resolution, the perf map and the demangler belong to other crates or to the
state of the process at the time a report is built, and are parameters.

## Main definitions

* `UnresolvedFrames`, `UnresolvedFrames.new` — a captured backtrace.
* `Symbol`, `Frames`, `Frames.ofUnresolved` — a resolved one.
* `fromUtf8Lossy` — `String::from_utf8_lossy`.

## Main results

* `UnresolvedFrames.beq_iff`, `Frames.beq_iff` — what the two equalities compare.
* `UnresolvedFrames.hash_eq_of_beq` — equal backtraces hash alike.
-/

namespace Rpprof

/-- `MAX_THREAD_NAME`. -/
def maxThreadName : ℕ := 16

/-! ### Captured backtraces -/

/-- A frame as the unwinder reports it. -/
structure Frame where
  ip : ℕ
  symbolAddress : ℕ
deriving DecidableEq, Repr, Inhabited

/-- `UnresolvedFrames`: the thread name is a buffer of fixed length and the part of it
that is used. -/
structure UnresolvedFrames where
  frames : List Frame
  threadName : List UInt8
  threadNameLength : ℕ
  threadId : ℕ
  sampleTimestamp : ℕ
  /-- `[u8; MAX_THREAD_NAME]`. -/
  length_threadName : threadName.length = maxThreadName
  /-- The used part lies in the buffer. -/
  threadNameLength_le : threadNameLength ≤ maxThreadName
deriving Repr

namespace UnresolvedFrames

/-- `UnresolvedFrames::default`, at a given time. -/
def default (now : ℕ) : UnresolvedFrames :=
  ⟨[], List.replicate maxThreadName 0, 0, 0, now, List.length_replicate, Nat.zero_le _⟩

/-- `UnresolvedFrames::new`; `none` is the panic of a name that does not fit the buffer. -/
def new (frames : List Frame) (tn : List UInt8) (threadId sampleTimestamp : ℕ) :
    Option UnresolvedFrames :=
  if h : tn.length ≤ maxThreadName then
    some ⟨frames, tn ++ List.replicate (maxThreadName - tn.length) 0, tn.length, threadId,
      sampleTimestamp, by rw [List.length_append, List.length_replicate]; omega, h⟩
  else none

/-- `UnresolvedFrames::eq`. -/
def eq (a b : UnresolvedFrames) : Bool :=
  if a.threadId ≠ b.threadId ∨ a.frames.length ≠ b.frames.length then false
  else (a.frames.zip b.frames).all fun s => s.1.symbolAddress == s.2.symbolAddress

instance : BEq UnresolvedFrames := ⟨eq⟩

/-- The symbol addresses of a backtrace. -/
def symbolAddresses (k : UnresolvedFrames) : List ℕ := k.frames.map Frame.symbolAddress

/-- `UnresolvedFrames::hash`, for a hasher that is given all it is fed at once. -/
def hash (finish : List ℕ → ℕ) (k : UnresolvedFrames) : ℕ :=
  finish (k.symbolAddresses ++ [k.threadId])

theorem all_zip_iff : ∀ a b : List Frame, a.length = b.length →
    ((a.zip b).all (fun s => s.1.symbolAddress == s.2.symbolAddress) = true ↔
      a.map Frame.symbolAddress = b.map Frame.symbolAddress) := by
  intro a
  induction a with
  | nil =>
    intro b h
    cases b with
    | nil => exact ⟨fun _ => rfl, fun _ => rfl⟩
    | cons f b => cases h
  | cons f a ih =>
    intro b h
    cases b with
    | nil => cases h
    | cons g b =>
      rw [List.zip_cons_cons, List.all_cons, Bool.and_eq_true, beq_iff_eq,
        ih b (Nat.succ.inj h), List.map_cons, List.map_cons, List.cons.injEq]

/-- **Equality is of the thread and of the list of symbol addresses.** -/
theorem beq_iff (a b : UnresolvedFrames) :
    (a == b) = true ↔ (a.threadId, a.symbolAddresses) = (b.threadId, b.symbolAddresses) := by
  show eq a b = true ↔ _
  unfold eq
  rw [Prod.mk.injEq]
  split
  · next h =>
    constructor
    · intro hfalse; cases hfalse
    · rintro ⟨hthread, haddr⟩
      have hlen := congrArg List.length haddr
      rw [symbolAddresses, symbolAddresses, List.length_map, List.length_map] at hlen
      exact absurd hlen (h.resolve_left fun hne => hne hthread)
  · next h =>
    rw [not_or, not_not, not_not] at h
    rw [all_zip_iff _ _ h.2]
    exact ⟨fun haddr => ⟨h.1, haddr⟩, fun hboth => hboth.2⟩

instance : EquivBEq UnresolvedFrames :=
  equivBEq_of_iff_apply_eq (fun k => (k.threadId, k.symbolAddresses)) beq_iff

/-- Equal backtraces hash alike. -/
theorem hash_eq_of_beq (finish : List ℕ → ℕ) {a b : UnresolvedFrames} (h : (a == b) = true) :
    a.hash finish = b.hash finish := by
  rw [beq_iff, Prod.mk.injEq] at h
  rw [hash, hash, h.1, h.2]

end UnresolvedFrames

/-! ### Lossy text -/

/-- A character of which some bytes are still to come: the range the next one must lie in,
how many follow it, and the bits so far. -/
structure PartialChar where
  low : UInt8
  high : UInt8
  more : ℕ
  bits : ℕ
deriving DecidableEq, Repr

namespace PartialChar

/-- What a lead byte of two, three or four bytes begins. -/
def ofLead (b : UInt8) : Option PartialChar :=
  if 0xC2 ≤ b ∧ b ≤ 0xDF then some ⟨0x80, 0xBF, 0, b.toNat % 32⟩
  else if b = 0xE0 then some ⟨0xA0, 0xBF, 1, b.toNat % 16⟩
  else if b = 0xED then some ⟨0x80, 0x9F, 1, b.toNat % 16⟩
  else if 0xE1 ≤ b ∧ b ≤ 0xEF then some ⟨0x80, 0xBF, 1, b.toNat % 16⟩
  else if b = 0xF0 then some ⟨0x90, 0xBF, 2, b.toNat % 8⟩
  else if b = 0xF4 then some ⟨0x80, 0x8F, 2, b.toNat % 8⟩
  else if 0xF1 ≤ b ∧ b ≤ 0xF3 then some ⟨0x80, 0xBF, 2, b.toNat % 8⟩
  else none

/-- A byte between characters: the characters it completes, and the one it begins. -/
def first (b : UInt8) : List Char × Option PartialChar :=
  if b < 0x80 then ([Char.ofNat b.toNat], none)
  else match ofLead b with
    | some p => ([], some p)
    | none => (['\uFFFD'], none)

/-- The next byte.  One that does not fit ends the character begun, which becomes one
replacement character, and is looked at again between characters. -/
def feed : Option PartialChar → UInt8 → List Char × Option PartialChar
  | none, b => first b
  | some p, b =>
    if p.low ≤ b ∧ b ≤ p.high then
      let bits := p.bits * 64 + b.toNat % 64
      match p.more with
      | 0 => ([Char.ofNat bits], none)
      | more + 1 => ([], some ⟨0x80, 0xBF, more, bits⟩)
    else ('\uFFFD' :: (first b).1, (first b).2)

/-- The characters of the rest of the bytes. -/
def decode : Option PartialChar → List UInt8 → List Char
  | none, [] => []
  | some _, [] => ['\uFFFD']
  | p, b :: l => (feed p b).1 ++ decode (feed p b).2 l

end PartialChar

/-- `String::from_utf8_lossy`: what is not UTF-8 becomes U+FFFD, one for each maximal
beginning of a character. -/
def fromUtf8Lossy (bytes : List UInt8) : String := String.ofList (PartialChar.decode none bytes)

theorem fromUTF8?_toUTF8 (s : String) : String.fromUTF8? s.toUTF8 = some s := by
  have hvalid : s.toUTF8.IsValidUTF8 := s.isValidUTF8
  rw [String.fromUTF8?, dif_pos hvalid]
  rfl

/-! ### Resolved backtraces -/

/-- `Symbol`, not demangled. -/
structure Symbol where
  name : Option (List UInt8)
  addr : Option ℕ
  lineno : Option ℕ
  filename : Option (List UInt8)
deriving Repr

namespace Symbol

/-- `Symbol::raw_name`. -/
def rawName (s : Symbol) : List UInt8 := s.name.getD "Unknown".toUTF8.toList

/-- `Symbol::name`, for a demangler. -/
def demangled (demangle : String → String) (s : Symbol) : String :=
  demangle (fromUtf8Lossy s.rawName)

/-- `Symbol::sys_name`. -/
def sysName (s : Symbol) : String := fromUtf8Lossy s.rawName

/-- `Symbol::filename`: what the symbol knows of it, as text. -/
def filenameText (s : Symbol) : String := (s.filename.map fromUtf8Lossy).getD "Unknown"

/-- `Symbol::lineno`. -/
def line (s : Symbol) : ℕ := s.lineno.getD 0

/-- `Symbol::eq`. -/
instance : BEq Symbol := ⟨fun a b => a.rawName == b.rawName⟩

theorem beq_iff (a b : Symbol) : (a == b) = true ↔ a.rawName = b.rawName := by
  show (a.rawName == b.rawName) = true ↔ _
  rw [beq_iff_eq]

end Symbol

/-- `Frames`. -/
structure Frames where
  frames : List (List Symbol)
  threadName : String
  threadId : ℕ
  sampleTimestamp : ℕ
deriving Repr

/-- What a report is resolved with: the perf map, the symbols of a frame, the demangler. -/
structure Resolver where
  /-- `resolve_in_perfmap`. -/
  perfmap : ℕ → Option Symbol
  /-- The symbols `resolve_symbol` calls back with, in order. -/
  symbols : Frame → List Symbol
  demangle : String → String

namespace Frames

/-- The derived `PartialEq`. -/
instance : BEq Frames := ⟨fun a b => a.frames == b.frames && a.threadName == b.threadName &&
  a.threadId == b.threadId && a.sampleTimestamp == b.sampleTimestamp⟩

/-- The raw names of a backtrace, frame by frame. -/
def rawNames (k : Frames) : List (List (List UInt8)) := k.frames.map (List.map Symbol.rawName)

/-- Lists compare as their images do, if elements do. -/
theorem list_beq_iff {α β : Type*} [BEq α] {f : α → β} (hf : ∀ a b, (a == b) = true ↔ f a = f b) :
    ∀ a b : List α, (a == b) = true ↔ a.map f = b.map f := by
  intro a
  induction a with
  | nil =>
    intro b
    cases b with
    | nil => exact ⟨fun _ => rfl, fun _ => rfl⟩
    | cons y b => constructor <;> intro h <;> cases h
  | cons x a ih =>
    intro b
    cases b with
    | nil => constructor <;> intro h <;> cases h
    | cons y b =>
      rw [List.cons_beq_cons, Bool.and_eq_true, hf, ih, List.map_cons, List.map_cons,
        List.cons.injEq]

/-- **Equality is of the raw names, the thread and the time.** -/
theorem beq_iff (a b : Frames) : (a == b) = true ↔
    (a.rawNames, a.threadName, a.threadId, a.sampleTimestamp) =
      (b.rawNames, b.threadName, b.threadId, b.sampleTimestamp) := by
  show (a.frames == b.frames && a.threadName == b.threadName &&
    a.threadId == b.threadId && a.sampleTimestamp == b.sampleTimestamp) = true ↔ _
  rw [Bool.and_eq_true, Bool.and_eq_true, Bool.and_eq_true,
    list_beq_iff (list_beq_iff Symbol.beq_iff), beq_iff_eq, beq_iff_eq, beq_iff_eq]
  simp only [Prod.mk.injEq, and_assoc, rawNames]

instance : EquivBEq Frames :=
  equivBEq_of_iff_apply_eq (fun k => (k.rawNames, k.threadName, k.threadId, k.sampleTimestamp))
    beq_iff

/-- `Frames::thread_name_or_id`. -/
def threadNameOrId (k : Frames) : String :=
  if k.threadName ≠ "" then k.threadName else toString k.threadId

/-- The symbols of a backtrace, innermost first: what a loop over the frames with one over
the symbols of each goes through. -/
def symbols (k : Frames) : List Symbol := k.frames.flatten

/-- Their names, innermost first. -/
def names (demangle : String → String) (k : Frames) : List String :=
  k.symbols.map (Symbol.demangled demangle)

/-- A backtrace as an export shows it: the thread, then the symbols with the outermost first. -/
def rootToLeaf (demangle : String → String) (k : Frames) : List String :=
  k.threadNameOrId ::
    k.frames.reverse.flatMap fun frame => frame.reverse.map (Symbol.demangled demangle)

theorem rootToLeaf_eq (demangle : String → String) (k : Frames) :
    k.rootToLeaf demangle = k.threadNameOrId :: (k.names demangle).reverse := by
  rw [rootToLeaf, names, symbols, ← List.map_reverse, List.reverse_flatten, List.map_flatten,
    List.flatMap, List.map_reverse, List.map_reverse, List.map_map]
  rfl

variable (r : Resolver)

/-- The symbols of one frame. -/
def resolve (frame : Frame) : List Symbol :=
  match r.perfmap frame.ip with
  | some symbol => [symbol]
  | none => r.symbols frame

/-- The frame is the signal handler's own. -/
def isHandler (symbols : List Symbol) : Bool :=
  symbols.any fun s => s.demangled r.demangle == "perf_signal_handler" ||
    s.demangled r.demangle == "_perf_signal_handler"

/-- The loop of `Frames::from`: the handler's frame is skipped with the next one, and a
frame without symbols is dropped. -/
def resolveAll : List Frame → List (List Symbol)
  | [] => []
  | frame :: rest =>
    if isHandler r (resolve r frame) then
      match rest with
      | [] => []
      | _ :: rest' => resolveAll rest'
    else if (resolve r frame).isEmpty then resolveAll rest
    else resolve r frame :: resolveAll rest

/-- `Frames::from`. -/
def ofUnresolved (k : UnresolvedFrames) : Frames where
  frames := resolveAll r k.frames
  threadName := fromUtf8Lossy (k.threadName.take k.threadNameLength)
  threadId := k.threadId
  sampleTimestamp := k.sampleTimestamp

end Frames

/-- A name with a byte that begins nothing, and one whose last character is cut short. -/
example : fromUtf8Lossy [0x61, 0xFF, 0xC3, 0xA9, 0xE2, 0x82] = "a\uFFFDé\uFFFD" := by decide

end Rpprof
