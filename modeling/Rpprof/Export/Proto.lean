import Mathlib.Data.Int.Notation
import Mathlib.Logic.ExistsUnique
import Mathlib.Data.Nat.Notation

/-!
# Profiles of the pprof format

The messages of `profile.proto`.  Everything that is shared is referred to by number:
strings by their place in the string table, functions and locations by their ids.  A
reader resolves a sample through its locations, their lines and the functions of these.
The mappings, which no profile here has, are left out.

## Main definitions

* `Protos.Profile` and the messages it is made of.
* `Profile.string`, `Profile.locationOf`, `Profile.functionOf` — resolving a reference.
* `Profile.names`, `Profile.thread`, `Profile.entry` — what a reader makes of a sample.
* `Profile.WellFormed` — what the format requires.
-/

namespace Rpprof.Protos

/-- `ValueType`: both are places in the string table. -/
structure ValueType where
  ty : ℤ := 0
  unit : ℤ := 0
deriving DecidableEq, Repr

/-- `Label`: all but `num` are places in the string table. -/
structure Label where
  key : ℤ := 0
  str : ℤ := 0
  num : ℤ := 0
  numUnit : ℤ := 0
deriving DecidableEq, Repr

/-- `Line`. -/
structure Line where
  functionId : ℕ := 0
  line : ℤ := 0
deriving DecidableEq, Repr

/-- `Location`. -/
structure Location where
  id : ℕ := 0
  mappingId : ℕ := 0
  address : ℕ := 0
  line : List Line := []
  isFolded : Bool := false
deriving DecidableEq, Repr

/-- `Function`: the three texts are places in the string table. -/
structure Function where
  id : ℕ := 0
  name : ℤ := 0
  systemName : ℤ := 0
  filename : ℤ := 0
  startLine : ℤ := 0
deriving DecidableEq, Repr

/-- `Sample`: the leaf is the first location. -/
structure Sample where
  locationId : List ℕ := []
  value : List ℤ := []
  label : List Label := []
deriving DecidableEq, Repr

/-- `Profile`. -/
structure Profile where
  sampleType : List ValueType := []
  sample : List Sample := []
  location : List Location := []
  function : List Function := []
  stringTable : List String := []
  dropFrames : ℤ := 0
  keepFrames : ℤ := 0
  timeNanos : ℤ := 0
  durationNanos : ℤ := 0
  periodType : Option ValueType := none
  period : ℤ := 0
  comment : List ℤ := []
  defaultSampleType : ℤ := 0
deriving DecidableEq, Repr

namespace Profile

variable (p : Profile)

/-! ### Resolving references -/

/-- The string at a place of the table. -/
def string (i : ℤ) : Option String := if 0 ≤ i then p.stringTable[i.toNat]? else none

/-- The location of an id. -/
def locationOf (id : ℕ) : Option Location := p.location.find? fun loc => loc.id == id

/-- The function of an id. -/
def functionOf (id : ℕ) : Option Function := p.function.find? fun f => f.id == id

/-- The line of a location that has one. -/
def lineOf (id : ℕ) : Option Line := do
  let loc ← p.locationOf id
  match loc.line with
  | [line] => some line
  | _ => none

/-- The function a location is in. -/
def functionAt (id : ℕ) : Option Function := do
  let line ← p.lineOf id
  p.functionOf line.functionId

/-- The name of the function a location is in. -/
def nameOf (id : ℕ) : Option String := do
  let f ← p.functionAt id
  p.string f.name

/-- The stack of a sample, leaf first. -/
def names (s : Sample) : Option (List String) := s.locationId.mapM p.nameOf

/-- The thread of a sample: the text of its label with this key. -/
def thread (s : Sample) : Option String := do
  let label ← s.label.find? fun label => p.string label.key == some "thread"
  p.string label.str

/-- A sample as a reader lists it: its thread, its stack and its first value. -/
def entry (s : Sample) : Option (String × List String × ℤ) := do
  let thread ← p.thread s
  let names ← p.names s
  let count ← s.value.head?
  some (thread, names, count)

/-- The type and unit of a value. -/
def valueType (t : ValueType) : Option (String × String) := do
  let ty ← p.string t.ty
  let unit ← p.string t.unit
  some (ty, unit)

/-! ### Well-formed profiles -/

/-- A place in the string table. -/
def InTable (i : ℤ) : Prop := 0 ≤ i ∧ i < p.stringTable.length

/-- The places in the string table that a profile mentions outside of its functions. -/
def ownIndices : List ℤ :=
  (p.sampleType.flatMap fun t => [t.ty, t.unit]) ++
  (p.sample.flatMap fun s => s.label.flatMap fun l => [l.key, l.str, l.numUnit]) ++
  [p.dropFrames, p.keepFrames] ++
  (p.periodType.toList.flatMap fun t => [t.ty, t.unit]) ++
  p.comment ++
  [p.defaultSampleType]

/-- All the places in the string table that a profile mentions. -/
def stringIndices : List ℤ :=
  (p.function.flatMap fun f => [f.name, f.systemName, f.filename]) ++ p.ownIndices

variable {p}

theorem inTable_zero (h : p.stringTable[0]? = some "") : p.InTable 0 := by
  have hlt := (List.getElem?_eq_some_iff.mp h).1
  exact ⟨Int.le_refl 0, by omega⟩

theorem inTable_of_mem_ownIndices
    (htypes : ∀ t ∈ p.sampleType, p.InTable t.ty ∧ p.InTable t.unit)
    (hlabels : ∀ s ∈ p.sample, ∀ l ∈ s.label,
      p.InTable l.key ∧ p.InTable l.str ∧ p.InTable l.numUnit)
    (hframes : p.InTable p.dropFrames ∧ p.InTable p.keepFrames)
    (hperiod : ∀ t ∈ p.periodType, p.InTable t.ty ∧ p.InTable t.unit)
    (hcomment : ∀ i ∈ p.comment, p.InTable i) (hdefault : p.InTable p.defaultSampleType) :
    ∀ i ∈ p.ownIndices, p.InTable i := by
  intro i hi
  simp only [ownIndices, List.mem_append, List.mem_flatMap, List.mem_cons, List.not_mem_nil,
    or_false, Option.mem_toList] at hi
  rcases hi with ((((⟨t, ht, rfl | rfl⟩ | ⟨s, hs, l, hl, rfl | rfl | rfl⟩) | (rfl | rfl)) |
    ⟨t, ht, rfl | rfl⟩) | hi) | rfl
  · exact (htypes t ht).1
  · exact (htypes t ht).2
  · exact (hlabels s hs l hl).1
  · exact (hlabels s hs l hl).2.1
  · exact (hlabels s hs l hl).2.2
  · exact hframes.1
  · exact hframes.2
  · exact (hperiod t ht).1
  · exact (hperiod t ht).2
  · exact hcomment i hi
  · exact hdefault

variable (p)

/-- What `profile.proto` asks of a profile, and that every location has one line. -/
structure WellFormed : Prop where
  /-- `string_table[0]` must always be `""`. -/
  empty : p.stringTable[0]? = some ""
  strings : ∀ i ∈ p.stringIndices, p.InTable i
  function_nonzero : ∀ f ∈ p.function, f.id ≠ 0
  function_nodup : (p.function.map Function.id).Nodup
  location_nonzero : ∀ loc ∈ p.location, loc.id ≠ 0
  location_nodup : (p.location.map Location.id).Nodup
  lines : ∀ loc ∈ p.location, ∃ line, loc.line = [line] ∧ ∃ f ∈ p.function, f.id = line.functionId
  locations : ∀ s ∈ p.sample, ∀ id ∈ s.locationId, ∃! loc, loc ∈ p.location ∧ loc.id = id
  values : ∀ s ∈ p.sample, s.value.length = p.sampleType.length

end Profile

end Rpprof.Protos
