import Rpprof.Export.Encoder

/-!
# Reading stacks back

What a reader finds in a profile whose tables were written by the loops: every location a
sample refers to is there, once, with one line whose function exists and has the name of
the symbol.

## Main definitions

* `Written` — a profile whose tables and samples were written for these backtraces.

## Main results

* `written_of_encodeRows` — the loops write such profiles.
* `Written.names` — **the stacks are read back**.
* `Written.wellFormed` — the references between the tables resolve.
-/

namespace Rpprof

open Protos

variable {demangle : String → String} {p : Profile} {firsts : List Symbol} {traces : List Frames}
  {s : Symbol} {id : ℕ}

theorem string_index {text : String} (h : text ∈ p.stringTable) :
    p.string (index (Table.ofIndices p.stringTable) text) = some text := by
  obtain ⟨i, -, hindex, hi⟩ := exists_index h
  rw [hindex, Profile.string, if_pos (Int.natCast_nonneg i), Int.toNat_natCast, hi]

theorem inTable_index {text : String} (h : text ∈ p.stringTable) :
    p.InTable (index (Table.ofIndices p.stringTable) text) := by
  obtain ⟨i, -, hindex, hi⟩ := exists_index h
  have hlt := (List.getElem?_eq_some_iff.mp hi).1
  rw [hindex]
  exact ⟨Int.natCast_nonneg i, Int.ofNat_lt.mpr hlt⟩

/-- A profile whose functions and locations are those of the first symbols of each name, and
whose samples are these backtraces. -/
structure Written (demangle : String → String) (traces : List Frames) (p : Profile)
    (firsts : List Symbol) : Prop where
  empty : p.stringTable[0]? = some ""
  nodup : (firsts.map (Symbol.demangled demangle)).Nodup
  function : p.function =
    firsts.mapIdx (functionFor demangle (Table.ofIndices p.stringTable))
  location : p.location = firsts.mapIdx locationFor
  firsts_mem : ∀ s ∈ firsts, ∃ k ∈ traces, s ∈ k.symbols
  strings : ∀ k ∈ traces, ∀ text ∈ stackStrings demangle k, text ∈ p.stringTable
  samples : List.Forall₂ (fun k smp =>
    List.Forall₂ (Refers demangle firsts) k.symbols smp.locationId) traces p.sample

theorem mem_stackStrings {k : Frames} (hs : s ∈ k.symbols) {text : String}
    (htext : text ∈ symbolStrings demangle s) : text ∈ stackStrings demangle k :=
  List.mem_cons_of_mem _ (List.mem_flatMap.mpr ⟨s, hs, htext⟩)

/-- The loops write such profiles. -/
theorem written_of_encodeRows {ρ : Type} {frames : ρ → Frames}
    {sample : ρ → List ℕ → Option Sample} {rows : List ρ} {tbl : List String} {t : Tables}
    {samples : List Sample}
    (hrun : encodeRows demangle (Table.ofIndices tbl) frames sample Tables.new rows =
      some (t, samples))
    (hsample : ∀ row locs smp, sample row locs = some smp → smp.locationId = locs)
    (hempty : tbl[0]? = some "")
    (hstr : ∀ row ∈ rows, ∀ text ∈ stackStrings demangle (frames row), text ∈ tbl)
    (htbl : p.stringTable = tbl) (hfn : p.function = t.fnTbl) (hloc : p.location = t.locTbl)
    (hsmp : p.sample = samples) :
    (∃ firsts, Written demangle (rows.map frames) p firsts) ∧
      List.Forall₂ (fun row smp => row ∈ rows ∧ ∃ locs, sample row locs = some smp)
        rows p.sample := by
  subst htbl hsmp
  have havail : ∀ row ∈ rows, ∀ s ∈ (frames row).symbols,
      Available demangle (Table.ofIndices p.stringTable) s := by
    intro row hrow s hs text htext
    exact ⟨_, stringIndex_eq (hstr row hrow text (mem_stackStrings hs htext))⟩
  obtain ⟨firsts, henc, hext, hsamples⟩ := encodeRows_spec rows Encodes.new havail hrun
  constructor
  · refine ⟨firsts, hempty, henc.functions.nodup, ?_, ?_, ?_, ?_, ?_⟩
    · rw [hfn, henc.fnTbl]
    · rw [hloc, henc.locTbl]
    · intro s hs
      have hmem := (hext.2 s hs).resolve_left List.not_mem_nil
      obtain ⟨row, hrow, hsym⟩ := List.mem_flatMap.mp hmem
      exact ⟨frames row, List.mem_map_of_mem hrow, hsym⟩
    · intro k hk
      obtain ⟨row, hrow, rfl⟩ := List.mem_map.mp hk
      exact hstr row hrow
    · rw [List.forall₂_map_left_iff]
      refine hsamples.imp fun row smp hrow => ?_
      obtain ⟨locs, hlocs, hmade⟩ := hrow
      rwa [hsample row locs smp hmade]
  · have hrows : ∀ row ∈ rows, row ∈ rows := fun row hrow => hrow
    refine List.Forall₂.imp (fun row smp hrow => ?_)
      ((List.forall₂_and_left _ _).mpr ⟨hrows, hsamples⟩)
    obtain ⟨hmem, locs, -, hmade⟩ := hrow
    exact ⟨hmem, locs, hmade⟩

namespace Written

theorem functionOf (h : Written demangle traces p firsts) (j : ℕ) : p.functionOf (j + 1) =
    (firsts[j]?).map (functionFor demangle (Table.ofIndices p.stringTable) j) := by
  rw [Profile.functionOf, h.function, Nat.add_comm]
  exact List.find?_mapIdx Function.id firsts 1 _ (fun i a => Nat.add_comm i 1) j

theorem locationOf (h : Written demangle traces p firsts) (j : ℕ) :
    p.locationOf (j + 1) = (firsts[j]?).map (locationFor j) := by
  rw [Profile.locationOf, h.location, Nat.add_comm]
  exact List.find?_mapIdx Location.id firsts 1 _ (fun i a => Nat.add_comm i 1) j

/-- A location has the line of a first symbol, and that symbol's function. -/
theorem functionAt (h : Written demangle traces p firsts) {j : ℕ} {first : Symbol}
    (hj : firsts[j]? = some first) :
    p.lineOf (j + 1) = some ⟨j + 1, first.line⟩ ∧ p.functionAt (j + 1) =
      some (functionFor demangle (Table.ofIndices p.stringTable) j first) := by
  have hline : p.lineOf (j + 1) = some ⟨j + 1, first.line⟩ := by
    rw [Profile.lineOf, h.locationOf, hj]
    rfl
  refine ⟨hline, ?_⟩
  rw [Profile.functionAt, hline, Option.bind_eq_bind, Option.bind_some, h.functionOf, hj]
  rfl

/-- The strings of a first symbol are in the table. -/
theorem strings_of_first (h : Written demangle traces p firsts) {first : Symbol}
    (hfirst : first ∈ firsts) {text : String} (htext : text ∈ symbolStrings demangle first) :
    text ∈ p.stringTable := by
  obtain ⟨k, hk, hs⟩ := h.firsts_mem first hfirst
  exact h.strings k hk text (mem_stackStrings hs htext)

/-- The function of a location has the name of every symbol that refers to it. -/
theorem nameOf (h : Written demangle traces p firsts) (hr : Refers demangle firsts s id) :
    p.nameOf id = some (s.demangled demangle) := by
  obtain ⟨j, first, hj, hname, rfl⟩ := hr
  have htext := h.strings_of_first (List.mem_of_getElem? hj) (List.mem_cons_self ..)
  rw [Profile.nameOf, (h.functionAt hj).2, Option.bind_eq_bind, Option.bind_some, ← hname]
  exact string_index htext

/-- **The stacks are read back.** -/
theorem names (h : Written demangle traces p firsts) :
    List.Forall₂ (fun k smp => p.names smp = some (k.names demangle)) traces p.sample := by
  refine h.samples.imp fun k smp hlocs => ?_
  rw [Profile.names, List.mapM_eq_some_iff, Frames.names, List.forall₂_map_right_iff]
  exact hlocs.flip.imp fun id s hr => h.nameOf hr

/-- Exactly one location has an id that a symbol refers to. -/
theorem existsUnique_location (h : Written demangle traces p firsts)
    (hr : Refers demangle firsts s id) : ∃! loc, loc ∈ p.location ∧ loc.id = id := by
  obtain ⟨j, first, hj, -, rfl⟩ := hr
  refine ⟨locationFor j first, ⟨?_, rfl⟩, ?_⟩
  · rw [h.location]
    apply List.mem_of_getElem?
    rw [List.getElem?_mapIdx, hj, Option.map_some]
  · rintro loc ⟨hloc, hid⟩
    rw [h.location] at hloc
    obtain ⟨i, hi, rfl⟩ := List.mem_mapIdx.mp hloc
    have hij : i = j := Nat.succ.inj hid
    subst hij
    rw [List.getElem?_eq_getElem hi, Option.some.injEq] at hj
    rw [hj]

/-- **The references between the tables resolve**, if those from elsewhere do. -/
theorem wellFormed (h : Written demangle traces p firsts) (hown : ∀ i ∈ p.ownIndices, p.InTable i)
    (hvalue : ∀ smp ∈ p.sample, smp.value.length = p.sampleType.length) : p.WellFormed where
  empty := h.empty
  strings := by
    intro i hi
    rcases List.mem_append.mp hi with hfn | hother
    · obtain ⟨f, hf, hi⟩ := List.mem_flatMap.mp hfn
      rw [h.function] at hf
      obtain ⟨j, hj, rfl⟩ := List.mem_mapIdx.mp hf
      have hfirst := List.getElem_mem hj
      simp only [functionFor, List.mem_cons, List.not_mem_nil, or_false] at hi
      rcases hi with rfl | rfl | rfl
      all_goals exact inTable_index (h.strings_of_first hfirst (by simp [symbolStrings]))
    · exact hown i hother
  function_nonzero := by
    intro f hf
    rw [h.function] at hf
    obtain ⟨j, hj, rfl⟩ := List.mem_mapIdx.mp hf
    exact Nat.succ_ne_zero j
  function_nodup := by
    rw [h.function, List.map_mapIdx_key Function.id firsts 1 _ fun i a => Nat.add_comm i 1]
    exact List.nodup_range'
  location_nonzero := by
    intro loc hloc
    rw [h.location] at hloc
    obtain ⟨j, hj, rfl⟩ := List.mem_mapIdx.mp hloc
    exact Nat.succ_ne_zero j
  location_nodup := by
    rw [h.location, List.map_mapIdx_key Location.id firsts 1 _ fun i a => Nat.add_comm i 1]
    exact List.nodup_range'
  lines := by
    intro loc hloc
    rw [h.location] at hloc
    obtain ⟨j, hj, rfl⟩ := List.mem_mapIdx.mp hloc
    refine ⟨_, rfl, functionFor demangle (Table.ofIndices p.stringTable) j firsts[j], ?_, rfl⟩
    rw [h.function]
    exact List.mem_mapIdx.mpr ⟨j, hj, rfl⟩
  locations := by
    intro smp hsmp id hid
    obtain ⟨k, -, hlocs⟩ := h.samples.exists_left hsmp
    obtain ⟨s, -, hr⟩ := hlocs.exists_left hid
    exact h.existsUnique_location hr
  values := hvalue

end Written

end Rpprof
