import Rpprof.Lib.Intern
import Rpprof.Lib.Json
import Rpprof.Profiler.Report

/-!
# Reports as speedscope files

The export collects the frames it meets in a table, the thread of a stack as its root, and
then writes the JSON text piece by piece, with an escaper of its own.  The total of the
weights is added up in a machine word.

## Main definitions

* `getFrameIdx`, `Speedscope.collect` — the table of frames and the samples.
* `escapeJson`, `Speedscope.text` — the text.
* `Report.writeSpeedscope` — the code.
* `SpeedscopeFile.parse`, `SpeedscopeFile.entries` — what a reader makes of the bytes.

## Main results

* `Speedscope.collect_spec` — the samples are the stacks, by their places in the table.
* `Speedscope.text_eq` — the text is that of one JSON value.
* `Report.speedscope_read` — **a report is read back from its file**.
-/

namespace Rpprof

/-! ### The frames and the samples -/

/-- `frame_indices` and `frame_names`. -/
structure FrameTable where
  frameIndices : Table String ℕ
  frameNames : List String

/-- The table at first. -/
def FrameTable.new : FrameTable := ⟨Table.empty, []⟩

/-- `get_frame_idx`. -/
def getFrameIdx (t : FrameTable) (frameName : String) : FrameTable × ℕ :=
  match t.frameIndices.get? frameName with
  | some idx => (t, idx)
  | none =>
    (⟨t.frameIndices.insert frameName t.frameNames.length, t.frameNames ++ [frameName]⟩,
      t.frameNames.length)

/-- The indices that make a sample. -/
def getFrameIdxs : FrameTable → List String → FrameTable × List ℕ
  | t, [] => (t, [])
  | t, frameName :: frameNames =>
    let (t, idx) := getFrameIdx t frameName
    let (t, idxs) := getFrameIdxs t frameNames
    (t, idx :: idxs)

/-- What is collected before anything is written. -/
structure Speedscope where
  frames : FrameTable
  samples : List (List ℕ)
  weights : List ℕ
  totalWeight : ℕ

namespace Speedscope

/-- At first. -/
def new : Speedscope := ⟨FrameTable.new, [], [], 0⟩

/-- The loop over the entries. -/
def collect (demangle : String → String) : Speedscope → List (Frames × ℤ) → Option Speedscope
  | s, [] => some s
  | s, (key, value) :: rest =>
    if value ≤ 0 then collect demangle s rest
    else do
      let (frames, sample) := getFrameIdxs s.frames (key.rootToLeaf demangle)
      let totalWeight ← usizeAdd s.totalWeight value.toNat
      collect demangle
        ⟨frames, s.samples ++ [sample], s.weights ++ [value.toNat], totalWeight⟩ rest

end Speedscope

/-! ### The text -/

/-- `{:04x}`. -/
def hex04 (n : ℕ) : List Char := List.leftpad 4 '0' (Nat.toDigits 16 n)

/-- What `escape_json` makes of a character. -/
def escapeChar (c : Char) : List Char :=
  if c = '"' then ['\\', '"']
  else if c = '\\' then ['\\', '\\']
  else if c = '\n' then ['\\', 'n']
  else if c = '\r' then ['\\', 'r']
  else if c = '\t' then ['\\', 't']
  else if c.toNat < 0x20 then '\\' :: 'u' :: hex04 c.toNat
  else [c]

/-- `escape_json`. -/
def escapeJson (s : String) : List Char := s.toList.flatMap escapeChar

/-- A loop that writes a comma before every item but the first. -/
def writeItems (items : List (List Char)) : List Char :=
  items.zipIdx.flatMap fun (item, i) => (if i > 0 then [','] else []) ++ item

namespace Speedscope

/-- All that is written. -/
def text (s : Speedscope) (name : String) : List Char :=
  "\x7b\"$schema\":\"https://www.speedscope.app/file-format-schema.json\",".toList ++
  "\"version\":\"0.0.1\",\"exporter\":\"rpprof\",\"name\":\"".toList ++ escapeJson name ++
  "\",\"activeProfileIndex\":0,\"profiles\":[\x7b\"type\":\"sampled\",\"name\":\"".toList ++
  escapeJson name ++ "\",\"unit\":\"count\",\"startValue\":0,\"endValue\":".toList ++
  (toString s.totalWeight).toList ++ ",\"samples\":[".toList ++
  writeItems (s.samples.map fun sample =>
    '[' :: (writeItems (sample.map fun idx => (toString idx).toList) ++ [']'])) ++
  "],\"weights\":[".toList ++
  writeItems (s.weights.map fun weight => (toString weight).toList) ++
  "]\x7d],\"shared\":\x7b\"frames\":[".toList ++
  writeItems (s.frames.frameNames.map fun fname =>
    "\x7b\"name\":\"".toList ++ escapeJson fname ++ "\"\x7d".toList) ++
  "]\x7d\x7d".toList

end Speedscope

/-- `Report::write_speedscope`: the bytes written. -/
def Report.writeSpeedscope (demangle : String → String) (report : Report) (name : String) :
    Option ByteArray := do
  let s ← Speedscope.new.collect demangle report.data.entries
  some (String.ofList (s.text name)).toUTF8

/-! ### Reading -/

/-- What a reader takes from a file with one sampled profile. -/
structure SpeedscopeFile where
  name : String
  profileName : String
  frames : List String
  samples : List (List ℕ)
  weights : List ℕ
  endValue : ℕ

namespace SpeedscopeFile

/-- The text of a member called `name`. -/
def nameOf (j : Json) : Option String := do (← j.member "name").asStr

/-- An array of natural numbers. -/
def numbersOf (j : Json) : Option (List ℕ) := do (← j.asArr).mapM Json.asNat

/-- The file a JSON value describes. -/
def ofJson (j : Json) : Option SpeedscopeFile := do
  let name ← nameOf j
  let shared ← j.member "shared"
  let frames ← (← (← shared.member "frames").asArr).mapM nameOf
  match ← (← j.member "profiles").asArr with
  | [profile] => do
    let profileName ← nameOf profile
    let samples ← (← (← profile.member "samples").asArr).mapM numbersOf
    let weights ← numbersOf (← profile.member "weights")
    let endValue ← (← profile.member "endValue").asNat
    some ⟨name, profileName, frames, samples, weights, endValue⟩
  | _ => none

/-- The file some bytes are. -/
def parse (bytes : ByteArray) : Option SpeedscopeFile := do
  let s ← String.fromUTF8? bytes
  let j ← Json.parse s.toList
  ofJson j

/-- The entry of a sample: its frames from the root on, looked up, and its count. -/
def entry (file : SpeedscopeFile) (sample : List ℕ) (weight : ℕ) : Option (List String × ℤ) := do
  let names ← sample.mapM fun idx => file.frames[idx]?
  some (names, (weight : ℤ))

/-- The entries of a file. -/
def entries (file : SpeedscopeFile) : Option (List (List String × ℤ)) :=
  (file.samples.zip file.weights).mapM fun p => file.entry p.1 p.2

end SpeedscopeFile

/-! ### What is collected -/

/-- The names a sample's indices stand for. -/
def Indexes (frameNames : List String) (names : List String) (sample : List ℕ) : Prop :=
  List.Forall₂ (fun name idx => frameNames[idx]? = some name) names sample

theorem Indexes.of_prefix {frameNames frameNames' names : List String} {sample : List ℕ}
    (h : Indexes frameNames names sample) (hp : frameNames <+: frameNames') :
    Indexes frameNames' names sample := by
  obtain ⟨more, rfl⟩ := hp
  refine List.Forall₂.imp (fun name idx hidx => ?_) h
  rw [List.getElem?_append_left (List.getElem?_eq_some_iff.mp hidx).1]
  exact hidx

/-- The table numbers its names from zero. -/
def FrameTable.Numbered (t : FrameTable) : Prop := Interns 0 t.frameIndices t.frameNames

theorem getFrameIdx_spec {t : FrameTable} (h : t.Numbered) (frameName : String) :
    (getFrameIdx t frameName).1.Numbered ∧
      t.frameNames <+: (getFrameIdx t frameName).1.frameNames ∧
      (getFrameIdx t frameName).1.frameNames[(getFrameIdx t frameName).2]? = some frameName := by
  unfold getFrameIdx
  split
  · next idx hidx =>
    obtain ⟨j, hj, rfl⟩ := (h frameName idx).mp hidx
    rw [Nat.zero_add]
    exact ⟨h, List.prefix_refl _, hj⟩
  · next hnone =>
    have hnext := Interns.insert h hnone
    rw [Nat.zero_add] at hnext
    exact ⟨hnext, List.prefix_append _ _, List.getElem?_concat_length⟩

theorem getFrameIdxs_spec (frameNames : List String) : ∀ {t : FrameTable}, t.Numbered →
    (getFrameIdxs t frameNames).1.Numbered ∧
      t.frameNames <+: (getFrameIdxs t frameNames).1.frameNames ∧
      Indexes (getFrameIdxs t frameNames).1.frameNames frameNames
        (getFrameIdxs t frameNames).2 := by
  induction frameNames with
  | nil => exact fun {t} h => ⟨h, List.prefix_refl _, List.Forall₂.nil⟩
  | cons frameName frameNames ih =>
    intro t h
    obtain ⟨hfirst, hprefix, hidx⟩ := getFrameIdx_spec h frameName
    obtain ⟨hrest, hprefix', hidxs⟩ := ih hfirst
    refine ⟨hrest, hprefix.trans hprefix', List.Forall₂.cons ?_ hidxs⟩
    have hone : Indexes (getFrameIdx t frameName).1.frameNames [frameName]
        [(getFrameIdx t frameName).2] := List.Forall₂.cons hidx List.Forall₂.nil
    exact (List.forall₂_cons.mp (hone.of_prefix hprefix')).1

/-- The weights of the entries that are shown. -/
def weightsOf (entries : List (Frames × ℤ)) : List ℕ := (shown entries).map fun e => e.2.toNat

/-- What was collected from some entries on. -/
structure Collected (demangle : String → String) (entries : List (Frames × ℤ))
    (s s' : Speedscope) : Prop where
  numbered : s'.frames.Numbered
  frames : s.frames.frameNames <+: s'.frames.frameNames
  weights : s'.weights = s.weights ++ weightsOf entries
  totalWeight : s'.totalWeight = s.totalWeight + (weightsOf entries).sum
  samples : ∃ samples, s'.samples = s.samples ++ samples ∧ List.Forall₂ (fun e sample =>
    Indexes s'.frames.frameNames (e.1.rootToLeaf demangle) sample) (shown entries) samples

section Shown

variable {e : Frames × ℤ} {entries : List (Frames × ℤ)}

theorem weightsOf_cons_of_pos (he : 0 < e.2) :
    weightsOf (e :: entries) = e.2.toNat :: weightsOf entries := by
  rw [weightsOf, shown_cons_of_pos he]
  rfl

theorem weightsOf_cons_of_nonpos (he : e.2 ≤ 0) :
    weightsOf (e :: entries) = weightsOf entries := by
  rw [weightsOf, shown_cons_of_nonpos he]
  rfl

theorem Collected.of_nonpos {demangle : String → String} {s s' : Speedscope} (he : e.2 ≤ 0)
    (h : Collected demangle entries s s') : Collected demangle (e :: entries) s s' where
  numbered := h.numbered
  frames := h.frames
  weights := by rw [weightsOf_cons_of_nonpos he]; exact h.weights
  totalWeight := by rw [weightsOf_cons_of_nonpos he]; exact h.totalWeight
  samples := by rw [shown_cons_of_nonpos he]; exact h.samples

end Shown

/-- **The samples are the stacks, by the places of their frames in the table.** -/
theorem Speedscope.collect_spec (demangle : String → String) (entries : List (Frames × ℤ)) :
    ∀ {s : Speedscope}, s.frames.Numbered → s.totalWeight + (weightsOf entries).sum < 2 ^ 64 →
      ∃ s', s.collect demangle entries = some s' ∧ Collected demangle entries s s' := by
  induction entries with
  | nil =>
    intro s h _
    refine ⟨s, rfl, h, List.prefix_refl _, ?_, ?_, [], ?_, List.Forall₂.nil⟩
    · exact (List.append_nil _).symm
    · rfl
    · exact (List.append_nil _).symm
  | cons e rest ih =>
    intro s h hsum
    obtain ⟨key, value⟩ := e
    by_cases hvalue : value ≤ 0
    · -- an entry that is not shown
      rw [weightsOf_cons_of_nonpos hvalue] at hsum
      obtain ⟨s', hrun, hs'⟩ := ih h hsum
      refine ⟨s', ?_, hs'.of_nonpos hvalue⟩
      rw [collect, if_pos hvalue, hrun]
    · have hpos : 0 < value := not_le.mp hvalue
      rw [weightsOf_cons_of_pos hpos, List.sum_cons] at hsum
      obtain ⟨hnumbered, hprefix, hsample⟩ :=
        getFrameIdxs_spec (key.rootToLeaf demangle) h
      have hadd : usizeAdd s.totalWeight value.toNat = some (s.totalWeight + value.toNat) := by
        rw [usizeAdd, if_pos (by omega)]
      obtain ⟨s', hrun, hs'⟩ := ih (s := ⟨(getFrameIdxs s.frames (key.rootToLeaf demangle)).1,
        s.samples ++ [(getFrameIdxs s.frames (key.rootToLeaf demangle)).2],
        s.weights ++ [value.toNat], s.totalWeight + value.toNat⟩) hnumbered
        (by rw [Nat.add_assoc]; exact hsum)
      obtain ⟨samples, hsamples, hstacks⟩ := hs'.samples
      refine ⟨s', ?_, hs'.numbered, hprefix.trans hs'.frames, ?_, ?_,
        (getFrameIdxs s.frames (key.rootToLeaf demangle)).2 :: samples, ?_, ?_⟩
      · rw [collect, if_neg hvalue]
        simp only [hadd, Option.bind_eq_bind, Option.bind_some, hrun]
      · rw [hs'.weights, weightsOf_cons_of_pos hpos, List.append_assoc, List.singleton_append]
      · rw [hs'.totalWeight, weightsOf_cons_of_pos hpos, List.sum_cons, Nat.add_assoc]
      · rw [hsamples, List.append_assoc, List.singleton_append]
      · rw [shown_cons_of_pos hpos]
        exact List.Forall₂.cons (hsample.of_prefix hs'.frames) hstacks

/-! ### The text -/

/-- A control character in hexadecimal. -/
theorem hex04_of_lt : ∀ n < 32,
    hex04 n = ['0', '0', Nat.digitChar (n / 16), Nat.digitChar (n % 16)] ∧
    Json.hexVal (Nat.digitChar (n / 16)) = some (n / 16) ∧
    Json.hexVal (Nat.digitChar (n % 16)) = some (n % 16) := by decide

/-- **What the escaper makes of a character is read as this character.** -/
theorem character_escapeChar (c : Char) (cs : List Char) :
    Json.character (escapeChar c ++ cs) = some (c, cs) := by
  unfold escapeChar
  split_ifs with hquote hback hnewline hreturn htab hcontrol
  · rw [hquote]
    rfl
  · rw [hback]
    rfl
  · rw [hnewline]
    rfl
  · rw [hreturn]
    rfl
  · rw [htab]
    rfl
  · obtain ⟨hhex, hhigh, hlow⟩ := hex04_of_lt c.toNat hcontrol
    have hvalue : ((0 * 16 + 0) * 16 + c.toNat / 16) * 16 + c.toNat % 16 = c.toNat := by omega
    have hzero : Json.hexVal '0' = some 0 := by decide
    have hread : Json.hex4 ('0' :: '0' :: Nat.digitChar (c.toNat / 16) ::
        Nat.digitChar (c.toNat % 16) :: cs) = some (c.toNat, cs) := by
      simp only [Json.hex4, hzero, hhigh, hlow, Option.bind_eq_bind, Option.bind_some, hvalue]
    rw [hhex]
    have hchar := Json.unicodeEscape_of_hex4 hread (by omega)
    rw [Char.ofNat_toNat] at hchar
    exact hchar
  · rw [List.singleton_append, Json.character, if_neg hback, if_neg]
    rintro (h | h)
    · exact hquote h
    · exact hcontrol h

/-- `escape_json`, as the reader undoes it. -/
def escaper : Json.Escaper := ⟨escapeChar, character_escapeChar⟩

theorem writeItems_eq (items : List (List Char)) : writeItems items = Json.commas items := by
  have hrest : ∀ (l : List (List Char)) (k : ℕ), ((l.zipIdx (k + 1)).flatMap fun (item, i) =>
      (if i > 0 then [','] else []) ++ item) = l.flatMap fun item => ',' :: item := by
    intro l
    induction l with
    | nil => exact fun k => rfl
    | cons item l ih =>
      intro k
      rw [List.zipIdx_cons, List.flatMap_cons, List.flatMap_cons, ih (k + 1)]
      rfl
  cases items with
  | nil => rfl
  | cons item items =>
    rw [writeItems, List.zipIdx_cons, List.flatMap_cons, Nat.zero_add, hrest items 0, Json.commas]
    rfl

namespace Speedscope

/-- The JSON value of the samples and their weights. -/
def profile (s : Speedscope) (name : String) : Json :=
  .obj [("type", .str "sampled"), ("name", .str name), ("unit", .str "count"),
    ("startValue", .num 0 0), ("endValue", .num s.totalWeight 0),
    ("samples", .arr (s.samples.map fun sample => .arr (sample.map fun idx : ℕ => .num idx 0))),
    ("weights", .arr (s.weights.map fun weight : ℕ => .num weight 0))]

/-- The JSON value of the frames. -/
def shared (s : Speedscope) : Json :=
  .obj [("frames", .arr (s.frames.frameNames.map fun fname => .obj [("name", .str fname)]))]

/-- The JSON value that is written. -/
def document (s : Speedscope) (name : String) : Json :=
  .obj [("$schema", .str "https://www.speedscope.app/file-format-schema.json"),
    ("version", .str "0.0.1"), ("exporter", .str "rpprof"), ("name", .str name),
    ("activeProfileIndex", .num 0 0), ("profiles", .arr [s.profile name]), ("shared", s.shared)]

theorem quote_eq (text : String) :
    Json.quote escaper text = '"' :: (escapeJson text ++ ['"']) := rfl

/-- The item of one frame. -/
theorem print_frame (fname : String) :
    "\x7b\"name\":\"".toList ++ escapeJson fname ++ "\"\x7d".toList =
      Json.print escaper (.obj [("name", .str fname)]) := by
  have hkey : "\x7b\"name\":\"".toList = '{' :: '"' :: (escapeJson "name" ++ ['"', ':', '"']) := by
    decide +kernel
  have hend : "\"\x7d".toList = ['"', '}'] := by decide +kernel
  rw [hkey, hend, Json.print, Json.printMembers, Json.printMembers, Json.commas_singleton, quote_eq,
    Json.print, quote_eq]
  simp only [List.cons_append, List.append_assoc, List.nil_append]

/-- The items of a list of numbers. -/
theorem print_numbers (l : List ℕ) : (l.map fun n => (toString n).toList) =
    Json.printElements escaper (l.map fun n : ℕ => .num n 0) := by
  rw [Json.printElements_eq_map, List.map_map]
  refine List.map_congr_left fun n _ => ?_
  show _ = Json.print escaper (.num n 0)
  rw [Json.print, if_pos rfl, List.append_nil, Json.decimal_natCast]

/-- The items of a list of samples. -/
theorem print_samples (samples : List (List ℕ)) : (samples.map fun sample =>
      '[' :: (writeItems (sample.map fun idx => (toString idx).toList) ++ [']'])) =
    Json.printElements escaper
      (samples.map fun sample => .arr (sample.map fun idx : ℕ => .num idx 0)) := by
  rw [Json.printElements_eq_map, List.map_map]
  refine List.map_congr_left fun sample _ => ?_
  show _ = Json.print escaper (.arr (sample.map fun idx : ℕ => .num idx 0))
  rw [Json.print, print_numbers, writeItems_eq]

/-- **The text is that of one JSON value**, without blanks. -/
theorem text_eq (s : Speedscope) (name : String) :
    s.text name = Json.print escaper (s.document name) := by
  let q := Json.quote escaper
  -- the pieces that do not depend on the report, quote by quote
  have hschema : "\x7b\"$schema\":\"https://www.speedscope.app/file-format-schema.json\",".toList =
      '{' :: (q "$schema" ++ ':' ::
        (q "https://www.speedscope.app/file-format-schema.json" ++ [','])) := by decide +kernel
  have hname : "\"version\":\"0.0.1\",\"exporter\":\"rpprof\",\"name\":\"".toList =
      q "version" ++ ':' :: (q "0.0.1" ++ ',' :: (q "exporter" ++ ':' :: (q "rpprof" ++
        ',' :: (q "name" ++ [':', '"'])))) := by decide +kernel
  have hprofile :
      "\",\"activeProfileIndex\":0,\"profiles\":[\x7b\"type\":\"sampled\",\"name\":\"".toList =
      '"' :: ',' :: (q "activeProfileIndex" ++ ':' :: (Json.decimal 0 ++ ',' :: (q "profiles" ++
        ':' :: '[' :: '{' :: (q "type" ++ ':' :: (q "sampled" ++ ',' ::
          (q "name" ++ [':', '"'])))))) := by decide +kernel
  have hunit : "\",\"unit\":\"count\",\"startValue\":0,\"endValue\":".toList =
      '"' :: ',' :: (q "unit" ++ ':' :: (q "count" ++ ',' :: (q "startValue" ++ ':' ::
        (Json.decimal 0 ++ ',' :: (q "endValue" ++ [':']))))) := by decide +kernel
  have hsamples : ",\"samples\":[".toList = ',' :: (q "samples" ++ [':', '[']) := by decide +kernel
  have hweights : "],\"weights\":[".toList = ']' :: ',' :: (q "weights" ++ [':', '[']) := by
    decide +kernel
  have hshared : "]\x7d],\"shared\":\x7b\"frames\":[".toList =
      ']' :: '}' :: ']' :: ',' :: (q "shared" ++ ':' :: '{' :: (q "frames" ++ [':', '['])) := by
    decide +kernel
  have hend : "]\x7d\x7d".toList = [']', '}', '}'] := by decide +kernel
  have hframes : (s.frames.frameNames.map fun fname =>
        "\x7b\"name\":\"".toList ++ escapeJson fname ++ "\"\x7d".toList) =
      Json.printElements escaper
        (s.frames.frameNames.map fun fname => .obj [("name", .str fname)]) := by
    rw [Json.printElements_eq_map, List.map_map]
    exact List.map_congr_left fun fname _ => print_frame fname
  unfold text document profile shared
  rw [hschema, hname, hprofile, hunit, hsamples, hweights, hshared, hend, hframes, print_numbers,
    print_samples]
  simp only [q, writeItems_eq, Json.print, Json.printMembers, Json.printElements,
    Json.commas_cons_cons, Json.commas_singleton, quote_eq name, Json.decimal_natCast, if_true,
    List.append_nil, List.cons_append, List.append_assoc, List.nil_append]

end Speedscope

/-! ### Reading the file -/

namespace SpeedscopeFile

theorem numbersOf_arr (l : List ℕ) : numbersOf (.arr (l.map fun n : ℕ => .num n 0)) = some l :=
  List.mapM_map_eq_some Json.asNat_natCast l

/-- What a reader takes from the JSON value that is written. -/
theorem ofJson_document (s : Speedscope) (name : String) : ofJson (s.document name) =
    some ⟨name, name, s.frames.frameNames, s.samples, s.weights, s.totalWeight⟩ := by
  have hname : nameOf (s.document name) = some name := rfl
  have hshared : (s.document name).member "shared" = some s.shared := rfl
  have hframes : s.shared.member "frames" =
    some (.arr (s.frames.frameNames.map fun fname => .obj [("name", .str fname)])) := rfl
  have hprofiles : (s.document name).member "profiles" = some (.arr [s.profile name]) := rfl
  have hprofile : nameOf (s.profile name) = some name := rfl
  have hsamples : (s.profile name).member "samples" = some (.arr (s.samples.map fun sample =>
    .arr (sample.map fun idx : ℕ => .num idx 0))) := rfl
  have hweights : (s.profile name).member "weights" =
    some (.arr (s.weights.map fun weight : ℕ => .num weight 0)) := rfl
  have hend : (s.profile name).member "endValue" = some (.num s.totalWeight 0) := rfl
  have hnames := List.mapM_map_eq_some (f := fun fname => Json.obj [("name", .str fname)])
    (g := nameOf) (fun fname => rfl) s.frames.frameNames
  have hlists := List.mapM_map_eq_some (g := numbersOf) numbersOf_arr s.samples
  simp only [ofJson, hname, hshared, hframes, hprofiles, hprofile, hsamples, hweights, hend, hnames,
    hlists, Json.asArr, Json.asNat_natCast, numbersOf_arr, Option.bind_eq_bind, Option.bind_some]

/-- What a reader makes of the bytes that are written. -/
theorem parse_text (s : Speedscope) (name : String) :
    parse (String.ofList (s.text name)).toUTF8 =
      some ⟨name, name, s.frames.frameNames, s.samples, s.weights, s.totalWeight⟩ := by
  simp only [parse, fromUTF8?_toUTF8, Option.bind_eq_bind, Option.bind_some, String.toList_ofList,
    s.text_eq name, Json.parse_print, ofJson_document]

/-- The entry of a sample whose indices stand for a stack. -/
theorem entry_of_indexes {demangle : String → String} {file : SpeedscopeFile} {e : Frames × ℤ}
    {sample : List ℕ} (he : 0 < e.2)
    (h : Indexes file.frames (e.1.rootToLeaf demangle) sample) :
    file.entry sample e.2.toNat =
      some (e.1.threadNameOrId :: (e.1.names demangle).reverse, e.2) := by
  have hnames : (sample.mapM fun idx => file.frames[idx]?) = some (e.1.rootToLeaf demangle) := by
    rw [List.mapM_eq_some_iff]
    exact List.Forall₂.flip h
  rw [entry, hnames, Option.bind_eq_bind, Option.bind_some, Int.toNat_of_nonneg he.le,
    Frames.rootToLeaf_eq]

theorem entries_of_indexes {demangle : String → String} {file : SpeedscopeFile}
    {l : List (Frames × ℤ)} {samples : List (List ℕ)} (hpos : ∀ e ∈ l, 0 < e.2)
    (h : List.Forall₂ (fun e sample => Indexes file.frames (e.1.rootToLeaf demangle) sample)
      l samples) :
    ((samples.zip (l.map fun e => e.2.toNat)).mapM fun p => file.entry p.1 p.2) =
      some (l.map fun e => (e.1.threadNameOrId :: (e.1.names demangle).reverse, e.2)) := by
  induction h with
  | nil => rfl
  | @cons e sample l samples hsample _ ih =>
    rw [List.map_cons, List.zip_cons_cons, List.mapM_cons,
      entry_of_indexes (hpos e List.mem_cons_self) hsample,
      ih fun e he => hpos e (List.mem_cons_of_mem _ he)]
    rfl

end SpeedscopeFile

/-! ### The total -/

theorem weightsOf_sum (entries : List (Frames × ℤ)) :
    (weightsOf entries).sum = (entries.map fun e => (max e.2 0).toNat).sum := by
  induction entries with
  | nil => rfl
  | cons e entries ih =>
    rw [List.map_cons, List.sum_cons, ← ih]
    by_cases he : 0 < e.2
    · rw [weightsOf_cons_of_pos he, List.sum_cons, max_eq_left he.le]
    · rw [weightsOf_cons_of_nonpos (not_lt.mp he), max_eq_right (not_lt.mp he), Int.toNat_zero,
        Nat.zero_add]

namespace Report

/-- **A report whose positive counts fit a machine word is read back from its file.** -/
theorem speedscope_read (demangle : String → String) (report : Report) (name : String)
    (h : Rpprof.totalSamples report.data < 2 ^ 64) :
    ∃ bytes file, report.writeSpeedscope demangle name = some bytes ∧
      SpeedscopeFile.parse bytes = some file ∧
      file.name = name ∧ file.profileName = name ∧ file.frames.Nodup ∧
      file.samples.length = file.weights.length ∧
      (∀ sample ∈ file.samples, ∀ idx ∈ sample, idx < file.frames.length) ∧
      file.endValue = file.weights.sum ∧ report.totalSamples = some file.endValue ∧
      file.entries = some ((report.data.entries.filter fun e => 0 < e.2).map fun e =>
        (e.1.threadNameOrId :: (e.1.names demangle).reverse, e.2)) := by
  have hsum : (weightsOf report.data.entries).sum = Rpprof.totalSamples report.data :=
    weightsOf_sum _
  have hnew : Speedscope.new.frames.Numbered := Interns.empty 0
  obtain ⟨s, hrun, hs⟩ := Speedscope.collect_spec demangle report.data.entries hnew
    (by rw [hsum]; exact (Nat.zero_add _).trans_lt h)
  obtain ⟨samples, hsamples, hstacks⟩ := hs.samples
  have hs_samples : s.samples = samples := hsamples
  have hs_weights : s.weights = weightsOf report.data.entries := hs.weights
  have hs_total : s.totalWeight = (weightsOf report.data.entries).sum :=
    hs.totalWeight.trans (Nat.zero_add _)
  refine ⟨_, ⟨name, name, s.frames.frameNames, s.samples, s.weights, s.totalWeight⟩, ?_,
    SpeedscopeFile.parse_text s name, rfl, rfl, hs.numbered.nodup, ?_, ?_, ?_, ?_, ?_⟩
  · rw [writeSpeedscope, hrun]
    rfl
  · show s.samples.length = s.weights.length
    rw [hs_samples, hs_weights, weightsOf, List.length_map, hstacks.length_eq]
  · intro sample hsample idx hidx
    obtain ⟨e, _, he⟩ := List.Forall₂.exists_left hstacks (hs_samples ▸ hsample)
    obtain ⟨fname, _, hfname⟩ := List.Forall₂.exists_left he hidx
    exact (List.getElem?_eq_some_iff.mp hfname).1
  · show s.totalWeight = s.weights.sum
    rw [hs_total, hs_weights]
  · show report.totalSamples = some s.totalWeight
    rw [totalSamples_eq h, hs_total, hsum]
  · rw [SpeedscopeFile.entries, hs_samples, hs_weights]
    refine SpeedscopeFile.entries_of_indexes (fun e he => ?_) hstacks
    simpa using (List.mem_filter.mp he).2

end Report

/-- A backtrace without frames, of a thread without a name. -/
def unnamed (threadId : ℕ) : Frames := ⟨[], "", threadId, 0⟩

/-- Two threads, the second of them in a function with a quote in its name. -/
def quotedReport : Report where
  data := (Table.empty.insert (unnamed 1) 2).insert
    ⟨[[⟨some "operator\"\"_s".toUTF8.toList, none, none, none⟩]], "tab\t", 7, 0⟩ 3
  timing := ⟨100, 0, 1000000, .cpu⟩
  missedSamples := 0

theorem Report.speedscope_read_quoted :
    ∃ bytes file, quotedReport.writeSpeedscope id "C:\\a" = some bytes ∧
      SpeedscopeFile.parse bytes = some file ∧
      file.name = "C:\\a" ∧ file.profileName = "C:\\a" ∧ file.frames.Nodup ∧
      file.samples.length = file.weights.length ∧
      (∀ sample ∈ file.samples, ∀ idx ∈ sample, idx < file.frames.length) ∧
      file.endValue = file.weights.sum ∧ quotedReport.totalSamples = some file.endValue ∧
      file.entries = some ((quotedReport.data.entries.filter fun e => 0 < e.2).map fun e =>
        (e.1.threadNameOrId :: (e.1.names id).reverse, e.2)) :=
  Report.speedscope_read id quotedReport "C:\\a" (by decide)

/-- Three threads, each with the largest count there is. -/
def crowdedReport : Report where
  data := ((Table.empty.insert (unnamed 1) (2 ^ 63 - 1)).insert (unnamed 2) (2 ^ 63 - 1)).insert
    (unnamed 3) (2 ^ 63 - 1)
  timing := ⟨100, 0, 1000000, .cpu⟩
  missedSamples := 0

/-- Their total does not fit a machine word, and nothing is written. -/
theorem crowded_not_written : (∀ e ∈ crowdedReport.data.entries, e.2 < 2 ^ 63) ∧
    crowdedReport.writeSpeedscope id "crowded" = none ∧ crowdedReport.totalSamples = none := by
  have hrun : Speedscope.new.collect id crowdedReport.data.entries = none :=
    Option.isNone_iff_eq_none.mp (by decide +kernel)
  refine ⟨by decide, ?_, by decide⟩
  rw [Report.writeSpeedscope, hrun]
  rfl

end Rpprof
