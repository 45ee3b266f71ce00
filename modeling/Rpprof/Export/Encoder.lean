import Rpprof.Export.Proto
import Rpprof.Lib.Intern
import Rpprof.Profiler.Frames

/-!
# Writing stacks to a profile

The part the two exports have in common.  All texts are collected in a set and numbered in
whatever order it is gone through, after the empty string.  Then the stacks are gone
through: a symbol whose demangled name was met before is the location it was then; any
other becomes the next function, and the location with the same number.

## Main definitions

* `SetOrder`, `stringTable` — the string table.
* `encodeSymbol`, `encodeSymbols`, `encodeRows` — the loops.
* `Encodes` — what the tables hold: the symbols met first of each name.
* `Refers` — a location is that of the first symbol of this name.

## Main results

* `encodeSymbols_spec`, `encodeRows_spec` — the loops keep the tables so.
* `exists_encodeRows` — and panic only where a sample cannot be made.
* `stringIndex_eq` — whatever was inserted in the set has a place.
-/

namespace Rpprof

open Protos

/-! ### The string table -/

/-- An order in which a hash set is gone through. -/
structure SetOrder where
  arrange : List String → List String
  perm : ∀ l, (arrange l).Perm l

/-- The order of insertion. -/
instance : Inhabited SetOrder := ⟨⟨id, fun l => List.Perm.refl l⟩⟩

/-- `str_tbl`: the empty string, and what was inserted in the set. -/
def stringTable (order : SetOrder) (inserted : List String) : List String :=
  "" :: order.arrange inserted.dedup

/-- `*strings.get(text).unwrap() as i64`; `none` is the panic of a text without a place. -/
def stringIndex (strings : Table String ℕ) (text : String) : Option ℤ :=
  (strings.get? text).map fun i : ℕ => (i : ℤ)

/-- What is inserted for a symbol. -/
def symbolStrings (demangle : String → String) (s : Symbol) : List String :=
  [s.demangled demangle, s.sysName, s.filenameText]

/-- What is inserted for a stack. -/
def stackStrings (demangle : String → String) (k : Frames) : List String :=
  k.threadNameOrId :: k.symbols.flatMap (symbolStrings demangle)

/-! ### The loops -/

/-- The tables that grow as the stacks are gone through. -/
structure Tables where
  functions : Table String ℕ
  fnTbl : List Function
  locTbl : List Location

/-- The tables at first. -/
def Tables.new : Tables := ⟨Table.empty, [], []⟩

section Loops

variable (demangle : String → String) (strings : Table String ℕ)

/-- One symbol: the tables after it, and its location. -/
def encodeSymbol (t : Tables) (symbol : Symbol) : Option (Tables × ℕ) :=
  match t.functions.get? (symbol.demangled demangle) with
  | some locIdx => some (t, locIdx)
  | none => do
    let functionId := t.fnTbl.length + 1
    let name ← stringIndex strings (symbol.demangled demangle)
    let systemName ← stringIndex strings symbol.sysName
    let filename ← stringIndex strings symbol.filenameText
    some (
      { functions := t.functions.insert (symbol.demangled demangle) functionId
        fnTbl := t.fnTbl ++
          [{ id := functionId, name := name, systemName := systemName, filename := filename }]
        locTbl := t.locTbl ++
          [{ id := functionId, line := [{ functionId := functionId, line := symbol.line }] }] },
      functionId)

/-- The symbols of one stack. -/
def encodeSymbols : Tables → List Symbol → Option (Tables × List ℕ)
  | t, [] => some (t, [])
  | t, symbol :: rest => do
    let (t, loc) ← encodeSymbol demangle strings t symbol
    let (t, locs) ← encodeSymbols t rest
    some (t, loc :: locs)

/-- All stacks, each with the sample that is made of it. -/
def encodeRows {ρ : Type} (frames : ρ → Frames) (sample : ρ → List ℕ → Option Sample) :
    Tables → List ρ → Option (Tables × List Sample)
  | t, [] => some (t, [])
  | t, row :: rest => do
    let (t, locs) ← encodeSymbols demangle strings t (frames row).symbols
    let s ← sample row locs
    let (t, samples) ← encodeRows frames sample t rest
    some (t, s :: samples)

/-! ### What the tables hold -/

/-- The place of a string, where it has one. -/
def index (text : String) : ℤ := (stringIndex strings text).getD 0

/-- The function of the symbol met as number `i`. -/
def functionFor (i : ℕ) (s : Symbol) : Function :=
  { id := i + 1, name := index strings (s.demangled demangle),
    systemName := index strings s.sysName, filename := index strings s.filenameText }

/-- The location of the symbol met as number `i`. -/
def locationFor (i : ℕ) (s : Symbol) : Location :=
  { id := i + 1, line := [{ functionId := i + 1, line := s.line }] }

/-- The strings of a symbol have places. -/
def Available (s : Symbol) : Prop :=
  ∀ text ∈ symbolStrings demangle s, ∃ i, stringIndex strings text = some i

/-- The tables are of these symbols, no two of one name. -/
structure Encodes (firsts : List Symbol) (t : Tables) : Prop where
  functions : Interns 1 t.functions (firsts.map (Symbol.demangled demangle))
  fnTbl : t.fnTbl = firsts.mapIdx (functionFor demangle strings)
  locTbl : t.locTbl = firsts.mapIdx locationFor

/-- The location is that of the first symbol with the name of this one. -/
def Refers (firsts : List Symbol) (s : Symbol) (id : ℕ) : Prop :=
  ∃ j first, firsts[j]? = some first ∧ first.demangled demangle = s.demangled demangle ∧ id = j + 1

/-- More symbols were met, all of this list. -/
def Extends (l firsts firsts' : List Symbol) : Prop :=
  firsts <+: firsts' ∧ ∀ s ∈ firsts', s ∈ firsts ∨ s ∈ l

end Loops

section Spec

variable {demangle : String → String} {strings : Table String ℕ} {firsts firsts' : List Symbol}
  {t t' : Tables}

theorem Encodes.new : Encodes demangle strings [] Tables.new :=
  ⟨Interns.empty 1, rfl, rfl⟩

theorem Extends.refl (l firsts : List Symbol) : Extends l firsts firsts :=
  ⟨List.prefix_refl firsts, fun _ hs => Or.inl hs⟩

theorem Extends.trans {l l' firsts'' : List Symbol} (h : Extends l firsts firsts')
    (h' : Extends l' firsts' firsts'') : Extends (l ++ l') firsts firsts'' := by
  refine ⟨h.1.trans h'.1, fun s hs => ?_⟩
  rw [List.mem_append]
  rcases h'.2 s hs with hold | hnew
  · exact (h.2 s hold).imp_right Or.inl
  · exact Or.inr (Or.inr hnew)

/-- What was met first stays so. -/
theorem Refers.of_prefix {s : Symbol} {id : ℕ} (h : Refers demangle firsts s id)
    (hp : firsts <+: firsts') : Refers demangle firsts' s id := by
  obtain ⟨j, first, hj, hname, rfl⟩ := h
  obtain ⟨l, rfl⟩ := hp
  refine ⟨j, first, ?_, hname, rfl⟩
  rw [List.getElem?_append_left (List.getElem?_eq_some_iff.mp hj).1]
  exact hj

theorem index_eq {text : String} {i : ℤ} (h : stringIndex strings text = some i) :
    index strings text = i := by
  rw [index, h, Option.getD_some]

/-- A symbol of a name not met before is added to all three tables. -/
theorem encodeSymbol_of_none {s : Symbol} (hget : t.functions.get? (s.demangled demangle) = none)
    (hs : Available demangle strings s) : encodeSymbol demangle strings t s =
      some (⟨t.functions.insert (s.demangled demangle) (t.fnTbl.length + 1),
        t.fnTbl ++ [functionFor demangle strings t.fnTbl.length s],
        t.locTbl ++ [locationFor t.fnTbl.length s]⟩, t.fnTbl.length + 1) := by
  obtain ⟨name, hname⟩ := hs (s.demangled demangle) (by simp [symbolStrings])
  obtain ⟨systemName, hsys⟩ := hs s.sysName (by simp [symbolStrings])
  obtain ⟨filename, hfile⟩ := hs s.filenameText (by simp [symbolStrings])
  rw [functionFor, index_eq hname, index_eq hsys, index_eq hfile]
  simp only [encodeSymbol, hget, hname, hsys, hfile, Option.bind_eq_bind, Option.bind_some]
  rfl

/-- One symbol was met before, or becomes the last one met. -/
theorem encodeSymbol_spec (h : Encodes demangle strings firsts t) {s : Symbol}
    (hs : Available demangle strings s) :
    ∃ t' firsts' id, encodeSymbol demangle strings t s = some (t', id) ∧
      Encodes demangle strings firsts' t' ∧ Extends [s] firsts firsts' ∧
      Refers demangle firsts' s id := by
  cases hget : t.functions.get? (s.demangled demangle) with
  | some id =>
    obtain ⟨j, hj, rfl⟩ := (h.functions _ _).mp hget
    rw [List.getElem?_map] at hj
    obtain ⟨first, hfirst, hname⟩ := Option.map_eq_some_iff.mp hj
    have hid := Nat.add_comm 1 j
    refine ⟨t, firsts, 1 + j, ?_, h, Extends.refl _ _, j, first, hfirst, hname, hid⟩
    simp only [encodeSymbol, hget]
  | none =>
    have hlen : t.fnTbl.length = firsts.length := by rw [h.fnTbl, List.length_mapIdx]
    refine ⟨_, firsts ++ [s], _, encodeSymbol_of_none hget hs, ?_, ?_, ?_⟩
    · constructor
      · have hnext : t.fnTbl.length + 1 =
            1 + (firsts.map (Symbol.demangled demangle)).length := by
          rw [List.length_map]
          omega
        rw [List.map_append, hnext]
        exact h.functions.insert hget
      · rw [List.mapIdx_concat, ← h.fnTbl, hlen]
      · rw [List.mapIdx_concat, ← h.locTbl, hlen]
    · exact ⟨List.prefix_append _ _, fun x hx => List.mem_append.mp hx⟩
    · exact ⟨firsts.length, s, List.getElem?_concat_length, rfl, by rw [hlen]⟩

/-- The symbols of one stack. -/
theorem encodeSymbols_spec (l : List Symbol) : ∀ {t : Tables} {firsts : List Symbol},
    Encodes demangle strings firsts t → (∀ s ∈ l, Available demangle strings s) →
    ∃ t' firsts' locs, encodeSymbols demangle strings t l = some (t', locs) ∧
      Encodes demangle strings firsts' t' ∧ Extends l firsts firsts' ∧
      List.Forall₂ (Refers demangle firsts') l locs := by
  induction l with
  | nil =>
    intro t firsts h _
    exact ⟨t, firsts, [], rfl, h, Extends.refl _ _, List.Forall₂.nil⟩
  | cons s l ih =>
    intro t firsts h hl
    obtain ⟨t₁, firsts₁, id, hsym, h₁, hext₁, hrefers⟩ :=
      encodeSymbol_spec h (hl s List.mem_cons_self)
    obtain ⟨t₂, firsts₂, locs, hrest, h₂, hext₂, hlocs⟩ :=
      ih h₁ fun x hx => hl x (List.mem_cons_of_mem s hx)
    refine ⟨t₂, firsts₂, id :: locs, ?_, h₂, hext₁.trans hext₂,
      List.Forall₂.cons (hrefers.of_prefix hext₂.1) hlocs⟩
    simp only [encodeSymbols, hsym, hrest, Option.bind_eq_bind, Option.bind_some]

section Rows

variable {ρ : Type} {frames : ρ → Frames} {sample : ρ → List ℕ → Option Sample}

/-- All stacks, where the samples could be made. -/
theorem encodeRows_spec (rows : List ρ) : ∀ {t t' : Tables} {firsts : List Symbol}
    {samples : List Sample}, Encodes demangle strings firsts t →
    (∀ row ∈ rows, ∀ s ∈ (frames row).symbols, Available demangle strings s) →
    encodeRows demangle strings frames sample t rows = some (t', samples) →
    ∃ firsts', Encodes demangle strings firsts' t' ∧
      Extends (rows.flatMap fun row => (frames row).symbols) firsts firsts' ∧
      List.Forall₂ (fun row smp => ∃ locs,
        List.Forall₂ (Refers demangle firsts') (frames row).symbols locs ∧
          sample row locs = some smp) rows samples := by
  induction rows with
  | nil =>
    intro t t' firsts samples h _ hrun
    rw [encodeRows, Option.some.injEq, Prod.mk.injEq] at hrun
    obtain ⟨rfl, rfl⟩ := hrun
    exact ⟨firsts, h, Extends.refl _ _, List.Forall₂.nil⟩
  | cons row rows ih =>
    intro t t' firsts samples h hrows hrun
    obtain ⟨t₁, firsts₁, locs, hsyms, h₁, hext₁, hlocs⟩ :=
      encodeSymbols_spec _ h (hrows row List.mem_cons_self)
    simp only [encodeRows, hsyms, Option.bind_eq_bind, Option.bind_some, Option.bind_eq_some_iff,
      Option.some.injEq, Prod.mk.injEq, Prod.exists] at hrun
    obtain ⟨smp, hsmp, t₂, rest, hrest, rfl, rfl⟩ := hrun
    obtain ⟨firsts₂, h₂, hext₂, hsamples⟩ :=
      ih h₁ (fun x hx => hrows x (List.mem_cons_of_mem row hx)) hrest
    refine ⟨firsts₂, h₂, ?_, List.Forall₂.cons ⟨locs, ?_, hsmp⟩ hsamples⟩
    · rw [List.flatMap_cons]
      exact hext₁.trans hext₂
    · exact hlocs.imp fun _ _ hrefers => hrefers.of_prefix hext₂.1

/-- The loop panics nowhere but in the making of a sample. -/
theorem exists_encodeRows (rows : List ρ) : ∀ {t : Tables} {firsts : List Symbol},
    Encodes demangle strings firsts t →
    (∀ row ∈ rows, ∀ s ∈ (frames row).symbols, Available demangle strings s) →
    (∀ row ∈ rows, ∀ locs, ∃ smp, sample row locs = some smp) →
    ∃ out, encodeRows demangle strings frames sample t rows = some out := by
  induction rows with
  | nil => exact fun {t} _ _ _ _ => ⟨(t, []), rfl⟩
  | cons row rows ih =>
    intro t firsts h hrows hsample
    obtain ⟨t₁, firsts₁, locs, hsyms, h₁, -, -⟩ :=
      encodeSymbols_spec _ h (hrows row List.mem_cons_self)
    obtain ⟨smp, hsmp⟩ := hsample row List.mem_cons_self locs
    obtain ⟨⟨t₂, rest⟩, hrest⟩ := ih h₁ (fun x hx => hrows x (List.mem_cons_of_mem row hx))
      fun x hx => hsample x (List.mem_cons_of_mem row hx)
    refine ⟨(t₂, smp :: rest), ?_⟩
    simp only [encodeRows, hsyms, hsmp, hrest, Option.bind_eq_bind, Option.bind_some]

end Rows

end Spec

/-! ### Places of strings -/

theorem mem_stringTable {order : SetOrder} {inserted : List String} {text : String}
    (h : text ∈ inserted) : text ∈ stringTable order inserted :=
  List.mem_cons_of_mem _ ((order.perm _).mem_iff.mpr (List.mem_dedup.mpr h))

/-- A string of the table has a place, and it is its own. -/
theorem exists_index {tbl : List String} {text : String} (h : text ∈ tbl) : ∃ i : ℕ,
    stringIndex (Table.ofIndices tbl) text = some (i : ℤ) ∧
      index (Table.ofIndices tbl) text = i ∧ tbl[i]? = some text := by
  obtain ⟨i, hget, hi⟩ := Table.exists_get?_ofIndices h
  have hplace : stringIndex (Table.ofIndices tbl) text = some (i : ℤ) := by
    rw [stringIndex, hget, Option.map_some]
  exact ⟨i, hplace, index_eq hplace, hi⟩

theorem stringIndex_eq {tbl : List String} {text : String} (h : text ∈ tbl) :
    stringIndex (Table.ofIndices tbl) text = some (index (Table.ofIndices tbl) text) := by
  obtain ⟨i, hplace, hindex, -⟩ := exists_index h
  rw [hplace, hindex]

end Rpprof
