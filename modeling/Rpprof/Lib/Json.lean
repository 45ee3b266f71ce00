import Mathlib.Data.List.Basic
import Mathlib.Data.Int.Notation
import Mathlib.Data.Nat.Notation
import Mathlib.Order.Basic

/-!
# JSON texts

A reader for JSON texts, as strict as the grammar: blanks between tokens, all kinds of values,
numbers with fraction and exponent, strings with all their escapes.  Control characters
must be escaped, a surrogate must have its partner, a leading zero stands alone, and no
comma is left over.  Against it a writer that leaves no blanks, for any way of escaping
characters that the reader undoes.

## Main definitions

* `Json` — values; a number is a mantissa and a decimal exponent.
* `Json.parse` — the reader.
* `Json.member`, `Json.asArr`, `Json.asStr`, `Json.asNat` — looking into a value.
* `Json.Escaper`, `Json.print` — the writer.

## Main results

* `Json.characters_escaped` — a string is read back, character by character.
* `Json.parse_print` — **what is written is read back**.
-/

/-- A JSON value. -/
inductive Json where
  | null
  | bool (b : Bool)
  /-- `mantissa * 10 ^ exponent`. -/
  | num (mantissa exponent : ℤ)
  | str (s : String)
  | arr (elements : List Json)
  | obj (members : List (String × Json))
deriving Inhabited

namespace Json

/-! ### Reading strings -/

/-- White space. -/
def isBlank (c : Char) : Bool := c == ' ' || c == '\t' || c == '\n' || c == '\r'

/-- Go to the next token. -/
def skipBlanks (cs : List Char) : List Char := cs.dropWhile isBlank

/-- The value of a hexadecimal digit. -/
def hexVal (c : Char) : Option ℕ :=
  if 48 ≤ c.toNat ∧ c.toNat ≤ 57 then some (c.toNat - 48)
  else if 97 ≤ c.toNat ∧ c.toNat ≤ 102 then some (c.toNat - 87)
  else if 65 ≤ c.toNat ∧ c.toNat ≤ 70 then some (c.toNat - 55)
  else none

/-- Four hexadecimal digits. -/
def hex4 : List Char → Option (ℕ × List Char)
  | a :: b :: c :: d :: cs => do
    let a ← hexVal a
    let b ← hexVal b
    let c ← hexVal c
    let d ← hexVal d
    some (((a * 16 + b) * 16 + c) * 16 + d, cs)
  | _ => none

/-- What follows `\u`: a character, or the first surrogate of one and the second. -/
def unicodeEscape (cs : List Char) : Option (Char × List Char) := do
  let (u, cs) ← hex4 cs
  if 0xD800 ≤ u ∧ u < 0xDC00 then
    match cs with
    | '\\' :: 'u' :: cs => do
      let (l, cs) ← hex4 cs
      if 0xDC00 ≤ l ∧ l < 0xE000 then
        some (Char.ofNat (0x10000 + (u - 0xD800) * 0x400 + (l - 0xDC00)), cs)
      else none
    | _ => none
  else if 0xDC00 ≤ u ∧ u < 0xE000 then none
  else some (Char.ofNat u, cs)

/-- What follows a backslash. -/
def escape : List Char → Option (Char × List Char)
  | '"' :: cs => some ('"', cs)
  | '\\' :: cs => some ('\\', cs)
  | '/' :: cs => some ('/', cs)
  | 'b' :: cs => some (Char.ofNat 8, cs)
  | 'f' :: cs => some (Char.ofNat 12, cs)
  | 'n' :: cs => some ('\n', cs)
  | 'r' :: cs => some ('\r', cs)
  | 't' :: cs => some ('\t', cs)
  | 'u' :: cs => unicodeEscape cs
  | _ => none

/-- One character of a string; `none` also at its end. -/
def character : List Char → Option (Char × List Char)
  | [] => none
  | c :: cs =>
    if c = '\\' then escape cs
    else if c = '"' ∨ c.toNat < 0x20 then none
    else some (c, cs)

/-- The characters of a string, and its closing quote. -/
def characters : ℕ → List Char → Option (List Char × List Char)
  | 0, _ => none
  | n + 1, cs =>
    match character cs with
    | some (c, cs) => do
      let (s, cs) ← characters n cs
      some (c :: s, cs)
    | none =>
      match cs with
      | '"' :: cs => some ([], cs)
      | _ => none

/-- What follows the opening quote of a string. -/
def string (cs : List Char) : Option (String × List Char) := do
  let (s, cs) ← characters (cs.length + 1) cs
  some (String.ofList s, cs)

/-! ### Reading numbers -/

/-- Digits, at least one. -/
def digits (cs : List Char) : Option (List Char × List Char) :=
  if cs.takeWhile Char.isDigit = [] then none
  else some (cs.takeWhile Char.isDigit, cs.dropWhile Char.isDigit)

/-- Digits without a leading zero, unless it is the only one. -/
def integerPart (cs : List Char) : Option (List Char × List Char) := do
  let (ds, cs) ← digits cs
  if ds.head? = some '0' ∧ 1 < ds.length then none else some (ds, cs)

/-- The digits after a decimal point, if there is one. -/
def fraction : List Char → Option (List Char × List Char)
  | '.' :: cs => digits cs
  | cs => some ([], cs)

/-- Put a sign to a number. -/
def signed (negative : Bool) (n : ℕ) : ℤ := if negative then -n else n

/-- The sign of a number. -/
def minus : List Char → Bool × List Char
  | '-' :: cs => (true, cs)
  | cs => (false, cs)

/-- The sign of an exponent. -/
def plusMinus : List Char → Bool × List Char
  | '+' :: cs => (false, cs)
  | cs => minus cs

/-- The exponent, if there is one. -/
def exponent : List Char → Option (ℤ × List Char)
  | [] => some (0, [])
  | c :: cs =>
    if c = 'e' ∨ c = 'E' then do
      let (ds, rest) ← digits (plusMinus cs).2
      some (signed (plusMinus cs).1 (Nat.ofDigitChars 10 ds 0), rest)
    else some (0, c :: cs)

/-- A number. -/
def number (cs : List Char) : Option (Json × List Char) := do
  let (ds, rest) ← integerPart (minus cs).2
  let (fs, rest) ← fraction rest
  let (x, rest) ← exponent rest
  some (num (signed (minus cs).1 (Nat.ofDigitChars 10 (ds ++ fs) 0)) (x - fs.length), rest)

/-! ### Reading values -/

/-- One of the three words. -/
def word (w : String) (v : Json) (cs : List Char) : Option (Json × List Char) :=
  if w.toList.isPrefixOf cs then some (v, cs.drop w.toList.length) else none

mutual

/-- A value, which begins here. -/
def value : ℕ → List Char → Option (Json × List Char)
  | 0, _ => none
  | _ + 1, [] => none
  | n + 1, c :: cs =>
    if c = '"' then do
      let (s, cs) ← string cs
      some (str s, cs)
    else if c = '[' then
      match skipBlanks cs with
      | ']' :: cs => some (arr [], cs)
      | cs => do
        let (vs, cs) ← elements n cs
        some (arr vs, cs)
    else if c = '{' then
      match skipBlanks cs with
      | '}' :: cs => some (obj [], cs)
      | cs => do
        let (ms, cs) ← members n cs
        some (obj ms, cs)
    else if c = 'n' then word "null" null (c :: cs)
    else if c = 't' then word "true" (bool true) (c :: cs)
    else if c = 'f' then word "false" (bool false) (c :: cs)
    else number (c :: cs)

/-- The elements of an array, and its closing bracket. -/
def elements : ℕ → List Char → Option (List Json × List Char)
  | 0, _ => none
  | n + 1, cs => do
    let (v, cs) ← value n cs
    match skipBlanks cs with
    | ',' :: cs => do
      let (vs, cs) ← elements n (skipBlanks cs)
      some (v :: vs, cs)
    | ']' :: cs => some ([v], cs)
    | _ => none

/-- The members of an object, and its closing brace. -/
def members : ℕ → List Char → Option (List (String × Json) × List Char)
  | n + 1, '"' :: cs => do
    let (k, cs) ← string cs
    match skipBlanks cs with
    | ':' :: cs => do
      let (v, cs) ← value n (skipBlanks cs)
      match skipBlanks cs with
      | ',' :: cs => do
        let (ms, cs) ← members n (skipBlanks cs)
        some ((k, v) :: ms, cs)
      | '}' :: cs => some ([(k, v)], cs)
      | _ => none
    | _ => none
  | _, _ => none

end

/-- A JSON text: one value, with blanks around it. -/
def parse (cs : List Char) : Option Json := do
  let (v, rest) ← value (cs.length + 1) (skipBlanks cs)
  if skipBlanks rest = [] then some v else none

/-- Blanks, an escape, a fraction and an exponent; a comma left over, a leading zero. -/
example : (parse " \x7b\"\\u00e9\" : [1.50, -2e3 ,true]\x7d ".toList).isSome = true ∧
    (parse "[1,]".toList).isSome = false ∧ (parse "01".toList).isSome = false := by decide +kernel

/-! ### Looking into values -/

/-- The first member of an object with this name. -/
def member (k : String) : Json → Option Json
  | obj ms => (ms.find? fun m => m.1 == k).map Prod.snd
  | _ => none

/-- The elements of an array. -/
def asArr : Json → Option (List Json)
  | arr vs => some vs
  | _ => none

/-- The text of a string. -/
def asStr : Json → Option String
  | str s => some s
  | _ => none

/-- The value of a number that is written as a natural one. -/
def asNat : Json → Option ℕ
  | num m x => if 0 ≤ m ∧ x = 0 then some m.toNat else none
  | _ => none

@[simp] theorem asNat_natCast (n : ℕ) : asNat (num n 0) = some n := by
  simp [asNat]

/-! ### Writing -/

/-- A way to write the characters of strings that the reader undoes. -/
structure Escaper where
  run : Char → List Char
  reads : ∀ c cs, character (run c ++ cs) = some (c, cs)

/-- Items with a comma before each but the first. -/
def commas : List (List Char) → List Char
  | [] => []
  | item :: items => item ++ items.flatMap fun item => ',' :: item

/-- An integer. -/
def decimal (n : ℤ) : List Char := (if n < 0 then ['-'] else []) ++ Nat.toDigits 10 n.natAbs

section Writing

variable (e : Escaper)

/-- A string. -/
def quote (s : String) : List Char := '"' :: (s.toList.flatMap e.run ++ ['"'])

mutual

/-- A value, without blanks. -/
def print : Json → List Char
  | null => "null".toList
  | bool true => "true".toList
  | bool false => "false".toList
  | num m x => decimal m ++ if x = 0 then [] else 'e' :: decimal x
  | str s => quote e s
  | arr vs => '[' :: (commas (printElements vs) ++ [']'])
  | obj ms => '{' :: (commas (printMembers ms) ++ ['}'])

/-- The elements of an array. -/
def printElements : List Json → List (List Char)
  | [] => []
  | v :: vs => print v :: printElements vs

/-- The members of an object. -/
def printMembers : List (String × Json) → List (List Char)
  | [] => []
  | (k, v) :: ms => (quote e k ++ ':' :: print v) :: printMembers ms

end

end Writing

@[simp] theorem decimal_natCast (n : ℕ) : decimal n = (toString n).toList := by
  rw [decimal, if_neg (by omega), Int.natAbs_natCast, List.nil_append]
  exact Nat.toList_repr.symm

theorem printElements_eq_map (e : Escaper) (vs : List Json) :
    printElements e vs = vs.map (print e) := by
  induction vs with
  | nil => rfl
  | cons v vs ih => rw [printElements, List.map_cons, ih]

/-! ### Strings are read back -/

/-- An escape that is no surrogate. -/
theorem unicodeEscape_of_hex4 {cs rest : List Char} {u : ℕ} (h : hex4 cs = some (u, rest))
    (hu : u < 0xD800) : unicodeEscape cs = some (Char.ofNat u, rest) := by
  have hfirst : ¬(0xD800 ≤ u ∧ u < 0xDC00) := by omega
  have hsecond : ¬(0xDC00 ≤ u ∧ u < 0xE000) := by omega
  simp only [unicodeEscape, h, Option.bind_eq_bind, Option.bind_some, if_neg hfirst,
    if_neg hsecond]

section Strings

variable (e : Escaper)

theorem Escaper.run_ne_nil (c : Char) : e.run c ≠ [] := by
  intro h
  have hread := e.reads c []
  rw [h] at hread
  cases hread

/-- **A string is read back**, character by character. -/
theorem characters_escaped (s : List Char) : ∀ (n : ℕ) (cs : List Char), s.length < n →
    characters n (s.flatMap e.run ++ '"' :: cs) = some (s, cs) := by
  induction s with
  | nil =>
    intro n cs h
    cases n with
    | zero => cases h
    | succ n => rfl
  | cons c s ih =>
    intro n cs h
    cases n with
    | zero => cases h
    | succ n =>
      rw [List.length_cons] at h
      rw [List.flatMap_cons, List.append_assoc]
      unfold characters
      simp only [e.reads, ih n cs (by omega), Option.bind_eq_bind, Option.bind_some]

theorem length_le_flatMap_run (s : List Char) : s.length ≤ (s.flatMap e.run).length := by
  induction s with
  | nil => exact Nat.le_refl 0
  | cons c s ih =>
    have hpos := List.length_pos_iff.mpr (e.run_ne_nil c)
    rw [List.flatMap_cons, List.length_append, List.length_cons]
    omega

theorem string_quote (s : String) (cs : List Char) :
    string (s.toList.flatMap e.run ++ '"' :: cs) = some (s, cs) := by
  have hlen := length_le_flatMap_run e s.toList
  rw [string, characters_escaped e s.toList _ cs (by rw [List.length_append]; omega)]
  simp only [Option.bind_eq_bind, Option.bind_some, String.ofList_toList]

end Strings

/-! ### Numbers are read back -/

/-- What may follow a value that is part of another, or nothing. -/
def Ends (cs : List Char) : Prop := ∀ c ∈ cs.head?, c = ',' ∨ c = ']' ∨ c = '}'

/-- Only the number zero begins with a zero. -/
theorem eq_zero_of_head_toDigits {n : ℕ} (h : (Nat.toDigits 10 n).head? = some '0') : n = 0 := by
  induction n using Nat.strongRecOn with
  | ind n ih =>
    rw [Nat.toDigits_eq_if (by decide)] at h
    split at h
    · next hlt =>
      have hdigit : ∀ d < 10, [Nat.digitChar d].head? = some '0' → d = 0 := by decide
      exact hdigit n hlt h
    · next hge =>
      rw [List.head?_append_of_ne_nil _ Nat.toDigits_ne_nil] at h
      have hzero := ih (n / 10) (by omega) h
      omega

theorem exists_toDigits (n : ℕ) :
    ∃ c ds, Nat.toDigits 10 n = c :: ds ∧ c.isDigit = true := by
  cases h : Nat.toDigits 10 n with
  | nil => exact absurd h Nat.toDigits_ne_nil
  | cons c ds =>
    exact ⟨c, ds, rfl, Nat.isDigit_of_mem_toDigits (by decide) (by decide)
      (h ▸ List.mem_cons_self)⟩

theorem digits_toDigits (n : ℕ) {cs : List Char} (h : ∀ c ∈ cs.head?, c.isDigit = false) :
    digits (Nat.toDigits 10 n ++ cs) = some (Nat.toDigits 10 n, cs) := by
  have hall : ∀ c ∈ Nat.toDigits 10 n, c.isDigit = true :=
    fun c hc => Nat.isDigit_of_mem_toDigits (by decide) (by decide) hc
  have htake : cs.takeWhile Char.isDigit = [] ∧ cs.dropWhile Char.isDigit = cs := by
    cases cs with
    | nil => exact ⟨rfl, rfl⟩
    | cons c cs =>
      have hc := h c rfl
      exact ⟨by simp [hc], by simp [hc]⟩
  rw [digits, List.takeWhile_append_of_pos hall, List.dropWhile_append_of_pos hall, htake.1,
    htake.2, List.append_nil, if_neg Nat.toDigits_ne_nil]

theorem integerPart_toDigits (n : ℕ) {cs : List Char} (h : ∀ c ∈ cs.head?, c.isDigit = false) :
    integerPart (Nat.toDigits 10 n ++ cs) = some (Nat.toDigits 10 n, cs) := by
  have hzero : ¬((Nat.toDigits 10 n).head? = some '0' ∧ 1 < (Nat.toDigits 10 n).length) := by
    rintro ⟨hhead, hlen⟩
    rw [eq_zero_of_head_toDigits hhead] at hlen
    exact absurd hlen (by decide)
  simp only [integerPart, digits_toDigits n h, Option.bind_eq_bind, Option.bind_some, if_neg hzero]

/-- The sign of what is written is read back. -/
theorem minus_decimal (n : ℤ) (cs : List Char) :
    minus (decimal n ++ cs) = (decide (n < 0), Nat.toDigits 10 n.natAbs ++ cs) := by
  rw [decimal]
  by_cases hn : n < 0
  · rw [if_pos hn, decide_eq_true hn]
    rfl
  · obtain ⟨c, ds, hds, hc⟩ := exists_toDigits n.natAbs
    rw [if_neg hn, decide_eq_false hn, hds, List.nil_append, List.cons_append]
    unfold minus
    split
    · next heq =>
      rw [List.cons.injEq] at heq
      rw [heq.1] at hc
      cases hc
    · rfl

theorem plusMinus_decimal (n : ℤ) (cs : List Char) :
    plusMinus (decimal n ++ cs) = minus (decimal n ++ cs) := by
  unfold plusMinus
  split
  · next heq =>
    -- no number begins with a plus
    obtain ⟨c, ds, hds, hc⟩ := exists_toDigits n.natAbs
    rw [decimal, hds] at heq
    split at heq
    · cases heq
    · rw [List.nil_append, List.cons_append, List.cons.injEq] at heq
      rw [heq.1] at hc
      cases hc
  · rfl

theorem signed_natAbs (n : ℤ) : signed (decide (n < 0)) n.natAbs = n := by
  by_cases hn : n < 0
  · rw [decide_eq_true hn, signed, if_pos rfl]
    omega
  · rw [decide_eq_false hn, signed, if_neg Bool.false_ne_true]
    omega

theorem Ends.not_digit {cs : List Char} (h : Ends cs) : ∀ c ∈ cs.head?, c.isDigit = false := by
  intro c hc
  rcases h c hc with rfl | rfl | rfl <;> rfl

/-- A number is read back. -/
theorem number_print (m x : ℤ) {cs : List Char} (h : Ends cs) :
    number (decimal m ++ ((if x = 0 then [] else 'e' :: decimal x) ++ cs)) =
      some (num m x, cs) := by
  have hplain : fraction cs = some ([], cs) ∧ exponent cs = some (0, cs) := by
    cases cs with
    | nil => exact ⟨rfl, rfl⟩
    | cons c cs => rcases h c rfl with rfl | rfl | rfl <;> exact ⟨rfl, rfl⟩
  rw [number, minus_decimal]
  by_cases hx : x = 0
  · subst hx
    simp only [if_true, List.nil_append, integerPart_toDigits _ h.not_digit, hplain.1, hplain.2,
      Option.bind_eq_bind, Option.bind_some, List.append_nil, Nat.ofDigitChars_ten_toDigits,
      signed_natAbs, List.length_nil]
    rfl
  · have hmark : ∀ c ∈ ('e' :: decimal x ++ cs).head?, c.isDigit = false := by
      intro c hc
      rw [← Option.some.inj hc]
      rfl
    have hexp : exponent ('e' :: decimal x ++ cs) = some (x, cs) := by
      rw [List.cons_append, exponent, if_pos (Or.inl rfl)]
      simp only [plusMinus_decimal, minus_decimal, digits_toDigits _ h.not_digit,
        Option.bind_eq_bind, Option.bind_some, Nat.ofDigitChars_ten_toDigits, signed_natAbs]
    have hfraction : fraction ('e' :: decimal x ++ cs) = some ([], 'e' :: decimal x ++ cs) := rfl
    simp only [if_neg hx, integerPart_toDigits _ hmark, hfraction, hexp,
      Option.bind_eq_bind, Option.bind_some, List.append_nil, Nat.ofDigitChars_ten_toDigits,
      signed_natAbs, List.length_nil]
    exact congrArg (fun y => some (num m y, cs)) (Int.sub_zero x)

/-! ### Values are read back -/

section Values

variable (e : Escaper)

theorem skipBlanks_cons {c : Char} (h : isBlank c = false) (cs : List Char) :
    skipBlanks (c :: cs) = c :: cs := by
  simp [skipBlanks, h]

theorem ne_of_isDigit {c d : Char} (hc : c.isDigit = true) (hd : d.isDigit = false) : c ≠ d := by
  rintro rfl
  rw [hc] at hd
  cases hd

/-- A number begins with a digit or a minus. -/
theorem exists_decimal (n : ℤ) :
    ∃ c cs, decimal n = c :: cs ∧ (c = '-' ∨ c.isDigit = true) := by
  obtain ⟨c, ds, hds, hc⟩ := exists_toDigits n.natAbs
  by_cases hn : n < 0
  · exact ⟨'-', Nat.toDigits 10 n.natAbs, by rw [decimal, if_pos hn]; rfl, Or.inl rfl⟩
  · exact ⟨c, ds, by rw [decimal, if_neg hn, hds, List.nil_append], Or.inr hc⟩

/-- The first character of a value is no blank and closes nothing. -/
theorem exists_print (v : Json) : ∃ c cs, print e v = c :: cs ∧ isBlank c = false ∧ c ≠ ']' := by
  cases v with
  | null => exact ⟨'n', "ull".toList, rfl, rfl, by decide⟩
  | bool b =>
    cases b with
    | true => exact ⟨'t', "rue".toList, rfl, rfl, by decide⟩
    | false => exact ⟨'f', "alse".toList, rfl, rfl, by decide⟩
  | num m x =>
    obtain ⟨c, cs, hcs, hc⟩ := exists_decimal m
    refine ⟨c, cs ++ (if x = 0 then [] else 'e' :: decimal x), ?_, ?_, ?_⟩
    · rw [print, hcs, List.cons_append]
    · rcases hc with rfl | hdigit
      · rfl
      · simp [isBlank, ne_of_isDigit hdigit]
    · rcases hc with rfl | hdigit
      · decide
      · exact ne_of_isDigit hdigit rfl
  | str s => exact ⟨'"', _, rfl, rfl, by decide⟩
  | arr vs => exact ⟨'[', _, rfl, rfl, by decide⟩
  | obj ms => exact ⟨'{', _, rfl, rfl, by decide⟩

theorem skipBlanks_print (v : Json) (cs : List Char) :
    skipBlanks (print e v ++ cs) = print e v ++ cs := by
  obtain ⟨c, cs', hcs, hblank, -⟩ := exists_print e v
  rw [hcs, List.cons_append]
  exact skipBlanks_cons hblank _

theorem value_num (n : ℕ) (m x : ℤ) {cs : List Char} (h : Ends cs) :
    value (n + 1) (print e (num m x) ++ cs) = some (num m x, cs) := by
  obtain ⟨c, ds, hds, hc⟩ := exists_decimal m
  have hother : ∀ d : Char, d ≠ '-' → d.isDigit = false → c ≠ d := by
    intro d hd hdigit
    rcases hc with rfl | hc
    · exact hd.symm
    · exact ne_of_isDigit hc hdigit
  have hnumber := number_print m x h
  rw [print, List.append_assoc]
  rw [hds, List.cons_append] at hnumber ⊢
  rw [value, if_neg (hother '"' (by decide) rfl), if_neg (hother '[' (by decide) rfl),
    if_neg (hother '{' (by decide) rfl), if_neg (hother 'n' (by decide) rfl),
    if_neg (hother 't' (by decide) rfl), if_neg (hother 'f' (by decide) rfl)]
  exact hnumber

theorem value_str (n : ℕ) (s : String) (cs : List Char) :
    value (n + 1) (print e (str s) ++ cs) = some (str s, cs) := by
  rw [print, quote, List.cons_append, List.append_assoc, value, if_pos rfl]
  simp only [List.singleton_append, string_quote, Option.bind_eq_bind, Option.bind_some]

theorem commas_singleton (item : List Char) : commas [item] = item := by
  rw [commas, List.flatMap_nil, List.append_nil]

theorem commas_cons_cons (item item' : List Char) (items : List (List Char)) :
    commas (item :: item' :: items) = item ++ ',' :: commas (item' :: items) := by
  rw [commas, commas, List.flatMap_cons, List.cons_append]

theorem ends_comma (cs : List Char) : Ends (',' :: cs) := by
  intro c hc
  exact Or.inl (Option.some.inj hc).symm

theorem ends_bracket (cs : List Char) : Ends (']' :: cs) := by
  intro c hc
  exact Or.inr (Or.inl (Option.some.inj hc).symm)

theorem ends_brace (cs : List Char) : Ends ('}' :: cs) := by
  intro c hc
  exact Or.inr (Or.inr (Option.some.inj hc).symm)

theorem exists_commas_elements (v : Json) (vs : List Json) :
    ∃ c cs, commas (printElements e (v :: vs)) = c :: cs ∧ isBlank c = false ∧ c ≠ ']' := by
  obtain ⟨c, cs, hcs, hc⟩ := exists_print e v
  rw [printElements, commas, hcs, List.cons_append]
  exact ⟨c, _, rfl, hc⟩

theorem exists_commas_members (m : String × Json) (ms : List (String × Json)) :
    ∃ cs, commas (printMembers e (m :: ms)) = '"' :: cs := by
  obtain ⟨k, v⟩ := m
  rw [printMembers, commas, quote, List.cons_append, List.cons_append]
  exact ⟨_, rfl⟩

/-- What the reader does with values of at most `n` characters. -/
def ReadsValues (n : ℕ) : Prop :=
  ∀ v cs, (print e v).length ≤ n → Ends cs → value n (print e v ++ cs) = some (v, cs)

/-- With the elements of an array. -/
def ReadsElements (n : ℕ) : Prop :=
  ∀ v vs cs, (commas (printElements e (v :: vs))).length < n →
    elements n (commas (printElements e (v :: vs)) ++ ']' :: cs) = some (v :: vs, cs)

/-- With the members of an object. -/
def ReadsMembers (n : ℕ) : Prop :=
  ∀ m ms cs, (commas (printMembers e (m :: ms))).length < n →
    members n (commas (printMembers e (m :: ms)) ++ '}' :: cs) = some (m :: ms, cs)

theorem readsElements_succ {n : ℕ} (hv : ReadsValues e n) (he : ReadsElements e n) :
    ReadsElements e (n + 1) := by
  intro v vs cs h
  cases vs with
  | nil =>
    simp only [printElements, commas_singleton] at h ⊢
    rw [elements, hv v _ (by omega) (ends_bracket cs)]
    simp only [Option.bind_eq_bind, Option.bind_some,
      skipBlanks_cons (show isBlank ']' = false by rfl)]
  | cons v' vs =>
    have hsplit : commas (printElements e (v :: v' :: vs)) =
        print e v ++ ',' :: commas (printElements e (v' :: vs)) := by
      rw [printElements, printElements, commas_cons_cons]
    rw [hsplit, List.length_append, List.length_cons] at h
    obtain ⟨c, rest, hc, hblank, -⟩ := exists_commas_elements e v' vs
    have hskip : skipBlanks (commas (printElements e (v' :: vs)) ++ ']' :: cs) =
        commas (printElements e (v' :: vs)) ++ ']' :: cs := by
      rw [hc, List.cons_append, skipBlanks_cons hblank]
    rw [hsplit, List.append_assoc, List.cons_append, elements, hv v _ (by omega) (ends_comma _)]
    simp only [Option.bind_eq_bind, Option.bind_some,
      skipBlanks_cons (show isBlank ',' = false by rfl), hskip, he v' vs cs (by omega)]

theorem readsMembers_succ {n : ℕ} (hv : ReadsValues e n) (hm : ReadsMembers e n) :
    ReadsMembers e (n + 1) := by
  intro m ms cs h
  obtain ⟨k, v⟩ := m
  cases ms with
  | nil =>
    simp only [printMembers, commas_singleton, quote, List.length_append, List.length_cons] at h ⊢
    simp only [List.cons_append, List.append_assoc, List.nil_append, members, string_quote,
      Option.bind_eq_bind, Option.bind_some, skipBlanks_cons (show isBlank ':' = false by rfl),
      skipBlanks_print, hv v _ (by omega) (ends_brace cs),
      skipBlanks_cons (show isBlank '}' = false by rfl)]
  | cons m' ms =>
    have hsplit : commas (printMembers e ((k, v) :: m' :: ms)) =
        quote e k ++ ':' :: (print e v ++ ',' :: commas (printMembers e (m' :: ms))) := by
      rw [printMembers, printMembers, commas_cons_cons, List.append_assoc, List.cons_append]
    obtain ⟨rest, hrest⟩ := exists_commas_members e m' ms
    have hskip : skipBlanks (commas (printMembers e (m' :: ms)) ++ '}' :: cs) =
        commas (printMembers e (m' :: ms)) ++ '}' :: cs := by
      rw [hrest, List.cons_append, skipBlanks_cons (show isBlank '"' = false by rfl)]
    rw [hsplit] at h ⊢
    simp only [quote, List.length_append, List.length_cons] at h
    simp only [quote, List.cons_append, List.append_assoc, List.nil_append, members, string_quote,
      Option.bind_eq_bind, Option.bind_some, skipBlanks_cons (show isBlank ':' = false by rfl),
      skipBlanks_print, hv v _ (by omega) (ends_comma _),
      skipBlanks_cons (show isBlank ',' = false by rfl), hskip, hm m' ms cs (by omega)]

theorem readsValues_succ {n : ℕ} (he : ReadsElements e n) (hm : ReadsMembers e n) :
    ReadsValues e (n + 1) := by
  intro v cs h hends
  cases v with
  | null => rfl
  | bool b => cases b <;> rfl
  | num m x => exact value_num e n m x hends
  | str s => exact value_str e n s cs
  | arr vs =>
    cases vs with
    | nil => rfl
    | cons v vs =>
      obtain ⟨c, rest, hc, hblank, hne⟩ := exists_commas_elements e v vs
      rw [print, List.length_cons, List.length_append, List.length_singleton] at h
      have hbody := he v vs cs (by omega)
      rw [print, List.cons_append, List.append_assoc, List.singleton_append, value,
        if_neg (by decide), if_pos rfl]
      rw [hc, List.cons_append] at hbody ⊢
      rw [skipBlanks_cons hblank]
      split
      · next heq => exact absurd (List.cons.inj heq).1 hne
      · simp only [hbody, Option.bind_eq_bind, Option.bind_some]
  | obj ms =>
    cases ms with
    | nil => rfl
    | cons m ms =>
      obtain ⟨rest, hrest⟩ := exists_commas_members e m ms
      rw [print, List.length_cons, List.length_append, List.length_singleton] at h
      have hbody := hm m ms cs (by omega)
      rw [print, List.cons_append, List.append_assoc, List.singleton_append, value,
        if_neg (by decide), if_neg (by decide), if_pos rfl]
      rw [hrest, List.cons_append] at hbody ⊢
      rw [skipBlanks_cons (show isBlank '"' = false by rfl)]
      split
      · next heq => exact absurd (List.cons.inj heq).1 (by decide)
      · simp only [hbody, Option.bind_eq_bind, Option.bind_some]

/-- **Whatever is written is read back**, if the fuel lasts for as many characters. -/
theorem reads_print (n : ℕ) : ReadsValues e n ∧ ReadsElements e n ∧ ReadsMembers e n := by
  induction n with
  | zero =>
    refine ⟨fun v cs h _ => ?_, fun v vs cs h => absurd h (Nat.not_lt_zero _),
      fun m ms cs h => absurd h (Nat.not_lt_zero _)⟩
    obtain ⟨c, cs', hcs, -, -⟩ := exists_print e v
    rw [hcs] at h
    cases h
  | succ n ih =>
    obtain ⟨hv, he, hm⟩ := ih
    exact ⟨readsValues_succ e he hm, readsElements_succ e hv he, readsMembers_succ e hv hm⟩

/-- **What is written is read back.** -/
theorem parse_print (v : Json) : parse (print e v) = some v := by
  obtain ⟨c, cs, hcs, hblank, -⟩ := exists_print e v
  have hread := (reads_print e ((print e v).length + 1)).1 v [] (Nat.le_succ _)
    (fun c hc => by cases hc)
  rw [List.append_nil] at hread
  have hskip : skipBlanks (print e v) = print e v := by rw [hcs, skipBlanks_cons hblank]
  simp only [parse, hskip, hread, Option.bind_eq_bind, Option.bind_some]
  rfl

end Values

end Json
