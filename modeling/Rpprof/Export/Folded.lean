import Mathlib.Algebra.Order.BigOperators.Group.List
import Mathlib.Algebra.Order.Group.Nat
import Rpprof.Lib.Intern
import Rpprof.Lib.Lines
import Rpprof.Profiler.Report

/-!
# Reports as folded stacks

One line for each stack: the thread, the names of the symbols from the root on, each after a
semicolon, then a space and the count.  Names are written as they are.

## Main definitions

* `Frames.folded`, `Report.writeFolded` — the code.
* `Folded.readLine`, `Folded.parse` — what a reader makes of a line, and of the text.
* `Report.ReadsBack` — the reader gets the entries of the report.
* `Report.Plain` — no name that is shown has a semicolon or a line break in it.

## Main results

* `Report.parse_writeFolded` — a plain report is read back.
* `Report.plain_of_readsBack` — and no other is.
* `Report.folded_readsBack` — **the two together**.
-/

namespace Rpprof

/-! ### Writing -/

/-- The line of an entry. -/
def Frames.folded (demangle : String → String) (key : Frames) (value : ℤ) : List Char :=
  key.threadNameOrId.toList ++
  (key.frames.reverse.flatMap fun frame =>
    frame.reverse.flatMap fun symbol => ';' :: (symbol.demangled demangle).toList) ++
  ' ' :: (toString value).toList ++ ['\n']

/-- The loop over the entries. -/
def foldedText (demangle : String → String) : List (Frames × ℤ) → List Char
  | [] => []
  | (key, value) :: rest =>
    if value ≤ 0 then foldedText demangle rest
    else key.folded demangle value ++ foldedText demangle rest

/-- `Report::write_folded`: the bytes written. -/
def Report.writeFolded (demangle : String → String) (report : Report) : ByteArray :=
  (String.ofList (foldedText demangle report.data.entries)).toUTF8

/-! ### Reading -/

namespace Folded

/-- A line: the stack is what stands before the last space, its fields have semicolons between
them, and after the space comes the count. -/
def readLine (line : List Char) : Option (List String × ℤ) := do
  let (stack, count) ← line.cutLast ' '
  if count ≠ [] ∧ count.all Char.isDigit then
    some ((stack.splitOn ';').map String.ofList, (Nat.ofDigitChars 10 count 0 : ℕ))
  else none

/-- The entries of a text. -/
def parse (bytes : ByteArray) : Option (List (List String × ℤ)) := do
  let s ← String.fromUTF8? bytes
  (s.toList.readLines '\n').mapM readLine

end Folded

namespace Report

variable (demangle : String → String) (report : Report)

/-- The entries with a positive count: the thread and the names from the root on, and the
count. -/
def foldedEntries : List (List String × ℤ) :=
  (shown report.data.entries).map fun e => (e.1.rootToLeaf demangle, e.2)

/-- The reader gets the entries of the report, in some order. -/
def ReadsBack : Prop :=
  ∃ entries, Folded.parse (report.writeFolded demangle) = some entries ∧
    entries.Perm (report.foldedEntries demangle)

/-- The two texts have the same lines, in some order. -/
def SameLines (report' : Report) : Prop :=
  ∃ text text', String.fromUTF8? (report.writeFolded demangle) = some text ∧
    String.fromUTF8? (report'.writeFolded demangle) = some text' ∧
    (text.toList.readLines '\n').Perm (text'.toList.readLines '\n')

/-- No name that is shown has a separator in it. -/
def Plain : Prop :=
  ∀ e ∈ report.data.entries, 0 < e.2 → ∀ name ∈ e.1.rootToLeaf demangle,
    ';' ∉ name.toList ∧ '\n' ∉ name.toList

end Report

/-! ### The lines -/

namespace Folded

/-- The stack of a line. -/
def stack (names : List String) : List Char := [';'].intercalate (names.map String.toList)

/-- The line of a stack, without its end. -/
def line (entry : List String × ℤ) : List Char := stack entry.1 ++ ' ' :: (toString entry.2).toList

theorem stack_cons (name : String) (names : List String) : stack (name :: names) =
    name.toList ++ names.flatMap fun name => ';' :: name.toList := by
  induction names generalizing name with
  | nil => simp [stack]
  | cons name' names ih =>
    have hrest := ih name'
    rw [stack, List.map_cons] at hrest
    rw [stack, List.map_cons, List.map_cons, List.intercalate_cons_cons, hrest, List.flatMap_cons]
    simp only [List.append_assoc, List.cons_append, List.nil_append]

/-- What is written for an entry is its line. -/
theorem folded_eq (demangle : String → String) (key : Frames) (value : ℤ) :
    key.folded demangle value = line (key.rootToLeaf demangle, value) ++ ['\n'] := by
  rw [Frames.folded, line, Frames.rootToLeaf, stack_cons, List.flatMap_assoc]
  simp only [List.flatMap_map, List.append_assoc]

/-- **The text is that of the lines of the entries that are shown.** -/
theorem foldedText_eq (demangle : String → String) (entries : List (Frames × ℤ)) :
    foldedText demangle entries = List.closeLines '\n'
      (((shown entries).map fun e => (e.1.rootToLeaf demangle, e.2)).map line) := by
  induction entries with
  | nil => rfl
  | cons e rest ih =>
    obtain ⟨key, value⟩ := e
    by_cases hvalue : value ≤ 0
    · rw [foldedText, if_pos hvalue, shown_cons_of_nonpos hvalue, ih]
    · rw [foldedText, if_neg hvalue, shown_cons_of_pos (not_le.mp hvalue), ih, folded_eq]
      rfl

/-- The lines that are read. -/
theorem parse_writeFolded (demangle : String → String) (report : Report) :
    parse (report.writeFolded demangle) = ((List.closeLines '\n'
      ((report.foldedEntries demangle).map line)).readLines '\n').mapM readLine := by
  rw [parse, Report.writeFolded, fromUTF8?_toUTF8, Option.bind_eq_bind, Option.bind_some,
    String.toList_ofList, foldedText_eq]
  rfl

variable {names : List String} {count : ℤ}

/-- A count has digits only, and some. -/
theorem toList_toString_count (h : 0 < count) :
    (toString count).toList = Nat.toDigits 10 count.toNat := by
  rw [Int.toString_eq_repr, Int.repr_eq_if, if_pos h.le]
  exact Nat.toList_repr

theorem not_mem_count (h : 0 < count) {c : Char} (hc : c.isDigit = false) :
    c ∉ (toString count).toList := by
  intro hmem
  rw [toList_toString_count h] at hmem
  rw [Nat.isDigit_of_mem_toDigits (by decide) (by decide) hmem] at hc
  cases hc

/-- The line of an entry, as the reader cuts it: the count is what was written, and the stack
is split wherever it has a semicolon. -/
theorem readLine_line (h : 0 < count) :
    readLine (line (names, count)) =
      some (((stack names).splitOn ';').map String.ofList, count) := by
  have hall : (Nat.toDigits 10 count.toNat).all Char.isDigit = true := by
    rw [List.all_eq_true]
    exact fun c hc => Nat.isDigit_of_mem_toDigits (by decide) (by decide) hc
  have hcut : (line (names, count)).cutLast ' ' = some (stack names, (toString count).toList) :=
    List.cutLast_append (not_mem_count h rfl) (stack names)
  rw [toList_toString_count h] at hcut
  simp only [readLine, hcut, Option.bind_eq_bind, Option.bind_some]
  rw [if_pos ⟨Nat.toDigits_ne_nil, hall⟩, Nat.ofDigitChars_ten_toDigits, Int.toNat_of_nonneg h.le]

/-- Names without a semicolon are the fields of their stack. -/
theorem splitOn_stack (hne : names ≠ []) (h : ∀ name ∈ names, ';' ∉ name.toList) :
    ((stack names).splitOn ';').map String.ofList = names := by
  have hfields : ∀ field ∈ names.map String.toList, ';' ∉ field := by
    intro field hfield
    obtain ⟨name, hname, rfl⟩ := List.mem_map.mp hfield
    exact h name hname
  rw [stack, List.splitOn_intercalate ';' hfields (by simpa using hne), List.map_map]
  exact (List.map_congr_left fun name _ => String.ofList_toList).trans (List.map_id _)

/-- A stack has as many fields as names, and one more for each semicolon in a name. -/
theorem length_splitOn_stack (hne : names ≠ []) :
    ((stack names).splitOn ';').length =
      names.length + (names.map fun name => name.toList.count ';').sum := by
  have hfields : names.map String.toList ≠ [] := by simpa using hne
  have hcount := List.count_intercalate ';' hfields
  rw [List.length_map, List.map_map] at hcount
  rw [List.length_splitOn, stack]
  exact hcount

/-- A line break in a line stands in a name. -/
theorem mem_line {c : Char} (hsemi : c ≠ ';') (hspace : c ≠ ' ') (hdigit : c.isDigit = false)
    (hcount : 0 < count) : c ∈ line (names, count) ↔ ∃ name ∈ names, c ∈ name.toList := by
  have hstack : c ∈ stack names ↔ ∃ name ∈ names, c ∈ name.toList := by
    cases names with
    | nil => simp [stack]
    | cons name names =>
      simp only [stack_cons, List.mem_append, List.mem_flatMap, List.mem_cons, hsemi, false_or,
        exists_eq_or_imp]
  rw [line, List.mem_append, List.mem_cons, hstack]
  constructor
  · rintro (hname | rfl | hmem)
    · exact hname
    · exact absurd rfl hspace
    · exact absurd hmem (not_mem_count hcount hdigit)
  · exact Or.inl

end Folded

/-! ### Reading what was written -/

namespace Report

variable {demangle : String → String} {report report' : Report}

theorem mem_foldedEntries {entry : List String × ℤ} (h : entry ∈ report.foldedEntries demangle) :
    ∃ e ∈ report.data.entries, 0 < e.2 ∧ entry = (e.1.rootToLeaf demangle, e.2) := by
  obtain ⟨e, he, rfl⟩ := List.mem_map.mp h
  obtain ⟨hmem, hpos⟩ := List.mem_filter.mp he
  exact ⟨e, hmem, of_decide_eq_true hpos, rfl⟩

/-- What is shown has a count, and a thread. -/
theorem pos_of_mem_foldedEntries {entry : List String × ℤ}
    (h : entry ∈ report.foldedEntries demangle) : 0 < entry.2 ∧ entry.1 ≠ [] := by
  obtain ⟨e, _, hpos, rfl⟩ := mem_foldedEntries h
  exact ⟨hpos, List.cons_ne_nil _ _⟩

/-- Plainness, over what is shown. -/
theorem plain_iff : report.Plain demangle ↔ ∀ entry ∈ report.foldedEntries demangle,
    ∀ name ∈ entry.1, ';' ∉ name.toList ∧ '\n' ∉ name.toList := by
  constructor
  · intro h entry hentry
    obtain ⟨e, he, hpos, rfl⟩ := mem_foldedEntries hentry
    exact h e he hpos
  · intro h e he hpos
    exact h (e.1.rootToLeaf demangle, e.2)
      (List.mem_map.mpr ⟨e, List.mem_filter.mpr ⟨he, by simpa using hpos⟩, rfl⟩)

/-- No name has a line break in it: then the lines are read as they were written, each as the
fields of its stack and its count. -/
theorem parse_of_lines (h : ∀ entry ∈ report.foldedEntries demangle, '\n' ∉ Folded.line entry) :
    Folded.parse (report.writeFolded demangle) = some ((report.foldedEntries demangle).map
      fun entry => (((Folded.stack entry.1).splitOn ';').map String.ofList, entry.2)) := by
  have hlines : ∀ line ∈ (report.foldedEntries demangle).map Folded.line, '\n' ∉ line := by
    intro line hline
    obtain ⟨entry, hentry, rfl⟩ := List.mem_map.mp hline
    exact h entry hentry
  rw [Folded.parse_writeFolded, List.readLines_closeLines hlines, List.mapM_eq_some_iff,
    List.forall₂_map_left_iff, List.forall₂_map_right_iff, List.forall₂_same]
  exact fun entry hentry => Folded.readLine_line (pos_of_mem_foldedEntries hentry).1

/-- **A plain report is read back, entry by entry.** -/
theorem parse_writeFolded (h : report.Plain demangle) :
    Folded.parse (report.writeFolded demangle) = some (report.foldedEntries demangle) := by
  rw [plain_iff] at h
  have hlines : ∀ entry ∈ report.foldedEntries demangle, '\n' ∉ Folded.line entry := by
    intro entry hentry hmem
    rw [Folded.mem_line (by decide) (by decide) rfl (pos_of_mem_foldedEntries hentry).1] at hmem
    obtain ⟨name, hname, hbreak⟩ := hmem
    exact (h entry hentry name hname).2 hbreak
  rw [parse_of_lines hlines]
  refine congrArg some ((List.map_congr_left fun entry hentry => ?_).trans (List.map_id _))
  have hnames := Folded.splitOn_stack (pos_of_mem_foldedEntries hentry).2
    fun name hname => (h entry hentry name hname).1
  rw [hnames]
  rfl

/-- **A report that is read back is plain.**  A line break in a name is a line too many, and a
semicolon in a name is a field too many. -/
theorem plain_of_readsBack (h : report.ReadsBack demangle) : report.Plain demangle := by
  obtain ⟨entries, hparse, hperm⟩ := h
  -- the lines, counted
  have hlines : ∀ entry ∈ report.foldedEntries demangle, '\n' ∉ Folded.line entry := by
    have hread := hparse
    rw [Folded.parse_writeFolded, List.mapM_eq_some_iff] at hread
    have hcount := List.length_readLines_closeLines '\n'
      ((report.foldedEntries demangle).map Folded.line)
    rw [hread.length_eq, hperm.length_eq, List.length_map] at hcount
    have hzero := List.sum_eq_zero_iff.mp (Nat.left_eq_add.mp hcount)
    intro entry hentry
    exact List.count_eq_zero.mp (hzero _ (List.mem_map_of_mem (List.mem_map_of_mem hentry)))
  -- the fields, counted
  rw [parse_of_lines hlines, Option.some.injEq] at hparse
  have hfields : ((report.foldedEntries demangle).map fun entry =>
      (entry.1.map fun name => name.toList.count ';').sum).sum = 0 := by
    have hlengths := (hperm.map fun entry => entry.1.length).sum_eq
    rw [← hparse, List.map_map] at hlengths
    have heach : ((report.foldedEntries demangle).map
        ((fun entry : List String × ℤ => entry.1.length) ∘ fun entry =>
          (((Folded.stack entry.1).splitOn ';').map String.ofList, entry.2))) =
        (report.foldedEntries demangle).map fun entry => entry.1.length +
          (entry.1.map fun name => name.toList.count ';').sum := by
      refine List.map_congr_left fun entry hentry => ?_
      have hsplit := Folded.length_splitOn_stack (pos_of_mem_foldedEntries hentry).2
      simpa using hsplit
    rw [heach, List.sum_map_add] at hlengths
    omega
  rw [plain_iff]
  intro entry hentry name hname
  constructor
  · have hentryZero := List.sum_eq_zero_iff.mp hfields _ (List.mem_map_of_mem hentry)
    exact List.count_eq_zero.mp (List.sum_eq_zero_iff.mp hentryZero _ (List.mem_map_of_mem hname))
  · intro hbreak
    refine hlines entry hentry ?_
    exact (Folded.mem_line (by decide) (by decide) rfl (pos_of_mem_foldedEntries hentry).1).mpr
      ⟨name, hname, hbreak⟩

/-- Plain reports with the same lines in some order have the same entries in some order. -/
theorem foldedEntries_perm (h : report.Plain demangle) (h' : report'.Plain demangle)
    (hsame : report.SameLines demangle report') :
    (report.foldedEntries demangle).Perm (report'.foldedEntries demangle) := by
  obtain ⟨text, text', htext, htext', hlines⟩ := hsame
  have hread := parse_writeFolded h
  have hread' := parse_writeFolded h'
  rw [Folded.parse, htext, Option.bind_eq_bind, Option.bind_some] at hread
  rw [Folded.parse, htext', Option.bind_eq_bind, Option.bind_some] at hread'
  rw [← List.filterMap_of_mapM hread, ← List.filterMap_of_mapM hread']
  exact hlines.filterMap _

/-- **A report is read back from its folded stacks if and only if it is plain**; and plain
reports with the same lines have the same entries. -/
theorem folded_readsBack (demangle : String → String) (report : Report) :
    (report.ReadsBack demangle ↔ report.Plain demangle) ∧
    (report.Plain demangle → ∀ report' : Report, report'.Plain demangle →
      report.SameLines demangle report' →
      (report.foldedEntries demangle).Perm (report'.foldedEntries demangle)) :=
  ⟨⟨plain_of_readsBack, fun h => ⟨_, parse_writeFolded h, List.Perm.refl _⟩⟩,
    fun h _ h' hsame => foldedEntries_perm h h' hsame⟩

end Report

/-- A function of the standard library, as the compiler writes its name. -/
def mangledIndex : String :=
  "_ZN4core5array85_$LT$impl$u20$core..ops..index..Index$LT$I$GT$$u20$for$u20$$u5b$T$u3b$" ++
  "$u20$N$u5d$$GT$5index17h0123456789abcdefE"

/-- What the demangler makes of it. -/
def demangleIndex (s : String) : String :=
  if s = mangledIndex then "core::array::<impl core::ops::index::Index<I> for [T; N]>::index"
  else s

/-- Samples in this function. -/
def indexReport : Report where
  data := Table.empty.insert
    ⟨[[⟨some mangledIndex.toUTF8.toList, none, none, none⟩]], "main", 1, 0⟩ 3
  timing := ⟨100, 0, 1000000, .cpu⟩
  missedSamples := 0

/-- An array type has a semicolon: the reader gets a stack of three frames, the last two of them
halves of one name. -/
theorem Report.index_not_readsBack :
    indexReport.foldedEntries demangleIndex =
      [(["main", "core::array::<impl core::ops::index::Index<I> for [T; N]>::index"], 3)] ∧
    Folded.parse (indexReport.writeFolded demangleIndex) = some
      [(["main", "core::array::<impl core::ops::index::Index<I> for [T", " N]>::index"], 3)] ∧
    ¬indexReport.ReadsBack demangleIndex := by
  have hentries : indexReport.foldedEntries demangleIndex =
      [(["main", "core::array::<impl core::ops::index::Index<I> for [T; N]>::index"], 3)] := by
    decide +kernel
  have hparse : Folded.parse (indexReport.writeFolded demangleIndex) = some
      [(["main", "core::array::<impl core::ops::index::Index<I> for [T", " N]>::index"], 3)] := by
    rw [Folded.parse_writeFolded, hentries]
    decide +kernel
  refine ⟨hentries, hparse, ?_⟩
  rintro ⟨entries, hread, hperm⟩
  rw [hparse, Option.some.injEq] at hread
  rw [← hread, hentries, List.perm_singleton] at hperm
  exact absurd hperm (by decide +kernel)

end Rpprof
