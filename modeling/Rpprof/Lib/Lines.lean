import Mathlib.Data.List.Basic
import Mathlib.Algebra.BigOperators.Group.List.Basic
import Mathlib.Algebra.GroupWithZero.Nat

/-!
# Texts of lines, fields and words

A text whose lines are each closed by a terminator, and a line whose fields have a separator
between them.  Both are read by splitting; what was written is read back exactly if the
terminator occurs in no line, and the separator in no field.  How many pieces there are can be
counted without reading.

Words are what stands between separators of several kinds, however many there are: joining the
words of a text gives the text only if one separator of one kind stood between them.

## Main definitions

* `List.closeLines`, `List.readLines` — lines with their terminator, and reading them.
* `List.cutLast` — the two sides of the last separator.
* `List.words` — the words of a text.
* `List.Spaced` — a text of words with one separator between them.

## Main results

* `List.readLines_closeLines` — lines without a terminator in them are read back.
* `List.length_readLines_closeLines` — as many lines are read as there are terminators.
* `List.count_intercalate` — the separators between fields, and in them.
* `List.intercalate_words_eq_iff` — the texts that are their words joined again.
-/

namespace List

variable {α : Type*} [DecidableEq α]

theorem length_splitOn (a : α) (l : List α) : (l.splitOn a).length = l.count a + 1 := by
  induction l with
  | nil => rfl
  | cons b l ih =>
    rw [splitOn_cons_eq_if_modifyHead]
    by_cases hb : b = a
    · rw [if_pos (by simp [hb]), length_cons, ih, hb, count_cons_self]
    · rw [if_neg (by simp [hb]), length_modifyHead, ih, count_cons_of_ne hb]

/-- As many separators as lie between the fields, and those in them. -/
theorem count_intercalate (a : α) {fields : List (List α)} (h : fields ≠ []) :
    ([a].intercalate fields).count a + 1 = fields.length + (fields.map (count a)).sum := by
  induction fields with
  | nil => exact absurd rfl h
  | cons field fields ih =>
    cases fields with
    | nil => simp [Nat.add_comm]
    | cons field' fields =>
      have hrest := ih (cons_ne_nil _ _)
      rw [intercalate_cons_cons, count_append, count_append, count_singleton_self, map_cons,
        sum_cons, length_cons]
      omega

/-! ### Lines -/

omit [DecidableEq α] in
/-- Lines, each with its terminator. -/
def closeLines (a : α) (lines : List (List α)) : List α := lines.flatMap fun line => line ++ [a]

/-- The lines of a text; a last one need not have its terminator. -/
def readLines (a : α) (text : List α) : List (List α) :=
  if (text.splitOn a).getLast? = some [] then (text.splitOn a).dropLast else text.splitOn a

theorem splitOn_closeLines {a : α} {lines : List (List α)} (h : ∀ line ∈ lines, a ∉ line) :
    (closeLines a lines).splitOn a = lines ++ [[]] := by
  induction lines with
  | nil => rfl
  | cons line lines ih =>
    rw [forall_mem_cons] at h
    rw [closeLines, flatMap_cons, append_assoc, singleton_append,
      splitOn_append_cons_self_of_not_mem h.1, ← closeLines, ih h.2]
    rfl

/-- **Lines without a terminator in them are read back.** -/
theorem readLines_closeLines {a : α} {lines : List (List α)} (h : ∀ line ∈ lines, a ∉ line) :
    readLines a (closeLines a lines) = lines := by
  rw [readLines, splitOn_closeLines h, if_pos getLast?_concat, dropLast_concat]

/-- After a terminator there is nothing. -/
theorem getLast?_splitOn_concat (a : α) (l : List α) :
    ((l ++ [a]).splitOn a).getLast? = some [] := by
  rw [splitOn_append_cons_self]
  exact getLast?_concat

/-- Whatever the lines contain, as many are read as there are terminators. -/
theorem length_readLines_closeLines (a : α) (lines : List (List α)) :
    (readLines a (closeLines a lines)).length = lines.length + (lines.map (count a)).sum := by
  have hlast : ((closeLines a lines).splitOn a).getLast? = some [] := by
    rcases eq_nil_or_concat lines with rfl | ⟨init, line, rfl⟩
    · rfl
    · rw [concat_eq_append, closeLines, flatMap_append, flatMap_singleton, ← append_assoc]
      exact getLast?_splitOn_concat a _
  have hcount : (closeLines a lines).count a = lines.length + (lines.map (count a)).sum := by
    clear hlast
    induction lines with
    | nil => rfl
    | cons line lines ih =>
      rw [closeLines, flatMap_cons, count_append, count_append, count_singleton_self,
        ← closeLines, ih, length_cons, map_cons, sum_cons]
      omega
  rw [readLines, if_pos hlast, length_dropLast, length_splitOn, Nat.add_sub_cancel, hcount]

/-! ### The last separator -/

/-- What stands before the last separator, and after it. -/
def cutLast (a : α) (l : List α) : Option (List α × List α) :=
  match l.reverse.dropWhile (· ≠ a) with
  | [] => none
  | _ :: before => some (before.reverse, (l.reverse.takeWhile (· ≠ a)).reverse)

theorem cutLast_append {a : α} {after : List α} (h : a ∉ after) (before : List α) :
    cutLast a (before ++ a :: after) = some (before, after) := by
  have hall : ∀ b ∈ after.reverse, decide (b ≠ a) = true := by
    intro b hb
    rw [decide_eq_true_eq]
    rintro rfl
    exact h (mem_reverse.mp hb)
  have hreverse : (before ++ a :: after).reverse = after.reverse ++ a :: before.reverse := by
    rw [reverse_append, reverse_cons, append_assoc, singleton_append]
  have hdrop : (a :: before.reverse).dropWhile (· ≠ a) = a :: before.reverse := by simp
  have htake : (a :: before.reverse).takeWhile (· ≠ a) = [] := by simp
  rw [cutLast, hreverse, dropWhile_append_of_pos hall, takeWhile_append_of_pos hall, hdrop, htake,
    append_nil]
  simp only [reverse_reverse]

/-! ### Words -/

section Words

variable {p : α → Bool}

omit [DecidableEq α]

/-- The pieces between separators, but for the empty ones. -/
def words (p : α → Bool) (l : List α) : List (List α) :=
  (l.splitOnP p).filter fun piece => !piece.isEmpty

@[simp] theorem words_nil : words p [] = [] := rfl

theorem words_append_cons {a : α} (ha : p a = true) (l l' : List α) :
    words p (l ++ a :: l') = words p l ++ words p l' := by
  rw [words, splitOnP_append_cons l l' ha, filter_append, ← words, ← words]

/-- A separator at the end is in no word. -/
theorem words_concat {a : α} (ha : p a = true) (l : List α) : words p (l ++ [a]) = words p l := by
  rw [words_append_cons ha, words_nil, append_nil]

theorem words_of_forall {word : List α} (hne : word ≠ []) (h : ∀ b ∈ word, p b = false) :
    words p word = [word] := by
  rw [words, splitOnP_eq_singleton h, filter_cons_of_pos (by simpa using hne), filter_nil]

/-- The pieces have no separator in them. -/
theorem forall_of_mem_splitOnP {l piece : List α} (h : piece ∈ l.splitOnP p) :
    ∀ b ∈ piece, p b = false := by
  induction l generalizing piece with
  | nil =>
    rw [splitOnP_nil, mem_singleton] at h
    exact fun b hb => absurd (h ▸ hb) not_mem_nil
  | cons a l ih =>
    rw [splitOnP_cons_eq_if_modifyHead] at h
    split_ifs at h with ha
    · rcases mem_cons.mp h with rfl | hrest
      · exact fun b hb => absurd hb not_mem_nil
      · exact ih hrest
    · -- the first piece gets one more
      obtain ⟨first, rest, hsplit⟩ := exists_cons_of_ne_nil (splitOnP_ne_nil p l)
      rw [hsplit, modifyHead_cons] at h
      rcases mem_cons.mp h with rfl | hrest
      · intro b hb
        rcases mem_cons.mp hb with rfl | hb
        · exact Bool.eq_false_iff.mpr ha
        · exact ih (hsplit ▸ mem_cons_self) b hb
      · exact ih (hsplit ▸ mem_cons_of_mem _ hrest)

theorem mem_words {l word : List α} (h : word ∈ words p l) :
    word ≠ [] ∧ ∀ b ∈ word, p b = false := by
  obtain ⟨hpiece, hne⟩ := mem_filter.mp h
  exact ⟨by simpa using hne, forall_of_mem_splitOnP hpiece⟩

/-- Words with separators between them are read back. -/
theorem words_intercalate {a : α} (ha : p a = true) {ws : List (List α)}
    (h : ∀ word ∈ ws, word ≠ [] ∧ ∀ b ∈ word, p b = false) :
    words p ([a].intercalate ws) = ws := by
  induction ws with
  | nil => rfl
  | cons word ws ih =>
    rw [forall_mem_cons] at h
    obtain ⟨⟨hne, hword⟩, hrest⟩ := h
    cases ws with
    | nil => rw [intercalate_singleton, words_of_forall hne hword]
    | cons word' ws =>
      rw [intercalate_cons_cons, append_assoc, singleton_append, words_append_cons ha,
        words_of_forall hne hword, ih hrest, singleton_append]

end Words

/-- The text is nothing, or words with one `a` between them and no other separator. -/
def Spaced (p : α → Bool) (a : α) (l : List α) : Prop :=
  l = [] ∨ ∀ piece ∈ l.splitOn a, piece ≠ [] ∧ ∀ b ∈ piece, p b = false

instance (p : α → Bool) (a : α) (l : List α) : Decidable (Spaced p a l) :=
  inferInstanceAs (Decidable (_ ∨ _))

/-- **A text is its words joined by `a` exactly if it is spaced by `a`.** -/
theorem intercalate_words_eq_iff {p : α → Bool} {a : α} (ha : p a = true) (l : List α) :
    [a].intercalate (words p l) = l ↔ Spaced p a l := by
  constructor
  · intro h
    by_cases hnone : words p l = []
    · rw [hnone] at h
      exact Or.inl h.symm
    · refine Or.inr fun piece hpiece => ?_
      have hnot : ∀ word ∈ words p l, a ∉ word := by
        intro word hword hmem
        rw [(mem_words hword).2 a hmem] at ha
        cases ha
      rw [← h, splitOn_intercalate a hnot hnone] at hpiece
      exact mem_words hpiece
  · rintro (rfl | h)
    · rfl
    · have hjoin : [a].intercalate (l.splitOn a) = l := intercalate_splitOn a
      have hwords := words_intercalate ha h
      rw [hjoin] at hwords
      rw [hwords, hjoin]

end List
