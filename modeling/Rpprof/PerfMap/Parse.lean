import Rpprof.Lib.Lines
import Rpprof.Profiler.Report

/-!
# Perf maps

A just-in-time compiler lists its functions in a text file, a line for each: the start and the
length of its code in hexadecimal, and its name.  A line is read by splitting it at whitespace, so
the name comes back with one space between its words, whatever stood there.  The end of a range is
a sum of two numbers of the file, which need not fit in a `usize`.

## Main definitions

* `PerfMap.new`, `PerfMap.find` — the code, from the bytes of the file on.
* `PerfLine` — a well-formed line.
* `PerfMap.Exact file lines` — the file is read, and each address is found in the first line that
  has it, under the name given there.

## Main results

* `PerfMap.new_eq` — what `new` makes of well-formed lines.
* `PerfMap.find_ranges` — an address is found in the first line that has it.
* `PerfMap.isExact_iff` — **files are read exactly** if and only if every end fits and the names
  found are words with single spaces between them.
-/

namespace Rpprof

/-! ### Reading text -/

/-- `char::is_whitespace`: the characters of Unicode's White_Space. -/
def isWhitespace (c : Char) : Bool :=
  (0x09 ≤ c.toNat && c.toNat ≤ 0x0d) || (0x2000 ≤ c.toNat && c.toNat ≤ 0x200a) ||
    [0x20, 0x85, 0xa0, 0x1680, 0x2028, 0x2029, 0x202f, 0x205f, 0x3000].contains c.toNat

/-- `char::to_digit`, in base 16. -/
def hexDigit (c : Char) : Option ℕ :=
  if 0x30 ≤ c.toNat ∧ c.toNat ≤ 0x39 then some (c.toNat - 0x30)
  else if 0x61 ≤ c.toNat ∧ c.toNat ≤ 0x66 then some (c.toNat - 0x61 + 10)
  else if 0x41 ≤ c.toNat ∧ c.toNat ≤ 0x46 then some (c.toNat - 0x41 + 10)
  else none

/-- One more digit of a `usize`. -/
def pushDigit (value : ℕ) (c : Char) : Option ℕ := do
  let digit ← hexDigit c
  if value * 16 + digit < 2 ^ 64 then some (value * 16 + digit) else none

/-- `usize::from_str_radix(s, 16)`: a sign `+` may stand before the digits, of which there must be
one. -/
def fromStrRadix16 (s : List Char) : Option ℕ :=
  let digits := if s.head? = some '+' then s.tail else s
  if digits = [] then none else digits.foldlM pushDigit 0

/-- The bytes of a text. -/
def encode (text : List Char) : List UInt8 := text.flatMap String.utf8EncodeChar

/-- `read_line` of the bytes of a line: an error if they are not UTF-8. -/
def decode (bytes : List UInt8) : Option (List Char) :=
  (String.fromUTF8? bytes.toByteArray).map String.toList

/-- A byte that is the line feed is a character that is one. -/
theorem mem_encode {text : List Char} (h : 0x0a ∈ encode text) : '\n' ∈ text := by
  obtain ⟨c, hc, hbyte⟩ := List.mem_flatMap.mp h
  have hmod : ∀ n, (0x0a : UInt8) = UInt8.ofNat n → n % 256 = 10 := by
    intro n hn
    have hval := congrArg UInt8.toNat hn
    rw [UInt8.toNat_ofNat'] at hval
    exact hval.symm
  have hval : c.val.toNat = 10 := by
    -- the bytes of a longer encoding are above 127
    unfold String.utf8EncodeChar at hbyte
    dsimp only at hbyte
    split_ifs at hbyte <;> simp only [List.mem_cons, List.not_mem_nil, or_false] at hbyte
    · have := hmod _ hbyte
      omega
    · rcases hbyte with hbyte | hbyte <;> have := hmod _ hbyte <;> omega
    · rcases hbyte with hbyte | hbyte | hbyte <;> have := hmod _ hbyte <;> omega
    · rcases hbyte with hbyte | hbyte | hbyte | hbyte <;> have := hmod _ hbyte <;> omega
  have hc' : c = '\n' := Char.ext (UInt32.toNat_inj.mp hval)
  exact hc' ▸ hc

theorem decode_encode (text : List Char) : decode (encode text) = some text := by
  have hbytes : (encode text).toByteArray = (String.ofList text).toUTF8 := by
    rw [String.toUTF8_eq_toByteArray, String.toByteArray_ofList, List.utf8Encode, encode]
  rw [decode, hbytes, fromUTF8?_toUTF8, Option.map_some, String.toList_ofList]

/-- What `Lines::next` does to a line after it has taken its line feed off. -/
def chomp (line : List Char) : List Char :=
  if line.getLast? = some '\r' then line.dropLast else line

/-- `BufRead::lines`, each `none` an error.  Only a line with a line feed is chomped. -/
def bufLines (file : List UInt8) : List (Option (List Char)) :=
  let pieces := file.splitOn 0x0a
  (pieces.dropLast.map fun piece => (decode piece).map chomp) ++
    match pieces.getLast? with
    | none | some [] => []
    | some last => [decode last]

/-! ### The map -/

/-- `PerfMap`: the start and the end of each range, and its name. -/
structure PerfMap where
  ranges : List (ℕ × ℕ × List Char)
  deriving DecidableEq, Repr

/-- The tokens of a line: two numbers, and the name joined again. -/
def parseLine (line : List Char) : Option (ℕ × ℕ × List Char) := do
  let parts := line.words isWhitespace
  let start ← parts[0]? >>= fromStrRadix16
  let len ← parts[1]? >>= fromStrRadix16
  some (start, len, [' '].intercalate (parts.drop 2))

namespace PerfMap

/-- The loop of `new`.  An outer `none` is the panic of an overflow. -/
def newLoop : List (Option (List Char)) → List (ℕ × ℕ × List Char) → Option (Option PerfMap)
  | [], ranges => some (some ⟨ranges⟩)
  | line :: lines, ranges =>
    match line.bind parseLine with
    | none => some none
    | some (start, len, name) =>
      match usizeAdd start len with
      | none => none
      | some stop => newLoop lines (ranges ++ [(start, stop, name)])

/-- `PerfMap::new`. -/
def new (file : List UInt8) : Option (Option PerfMap) := newLoop (bufLines file) []

/-- `PerfMap::find`: the name of the first range with the address in it. -/
def find (m : PerfMap) (addr : ℕ) : Option (List Char) :=
  (m.ranges.find? fun range => range.1 ≤ addr && addr < range.2.1).map fun range => range.2.2

/-- `PerfMapSymbol` as a `Symbol`. -/
def symbol (name : List Char) : Symbol := ⟨some (encode name), none, none, none⟩

end PerfMap

/-! ### Numbers in hexadecimal -/

theorem isWhitespace_of_hexDigit {c : Char} (h : (hexDigit c).isSome = true) :
    isWhitespace c = false := by
  unfold hexDigit at h
  simp only [isWhitespace, List.contains_eq_mem, List.mem_cons, List.not_mem_nil, or_false,
    Bool.or_eq_false_iff, Bool.and_eq_false_iff, decide_eq_false_iff_not]
  split_ifs at h
  · omega
  · omega
  · omega
  · cases h

theorem ne_plus_of_hexDigit {c : Char} (h : (hexDigit c).isSome = true) : c ≠ '+' := by
  rintro rfl
  exact absurd h (by decide)

/-- The value of digits after others of the value `value`. -/
def hexValueFrom (value : ℕ) (digits : List Char) : ℕ :=
  digits.foldl (fun value c => value * 16 + (hexDigit c).getD 0) value

theorem le_hexValueFrom (digits : List Char) : ∀ value, value ≤ hexValueFrom value digits := by
  induction digits with
  | nil => exact fun value => le_rfl
  | cons c digits ih =>
    intro value
    have hrest := ih (value * 16 + (hexDigit c).getD 0)
    rw [hexValueFrom, List.foldl_cons, ← hexValueFrom]
    omega

theorem foldlM_pushDigit {digits : List Char} (h : ∀ c ∈ digits, (hexDigit c).isSome = true) :
    ∀ value, hexValueFrom value digits < 2 ^ 64 →
      digits.foldlM pushDigit value = some (hexValueFrom value digits) := by
  induction digits with
  | nil => exact fun value _ => rfl
  | cons c digits ih =>
    intro value hlt
    rw [List.forall_mem_cons] at h
    obtain ⟨digit, hdigit⟩ := Option.isSome_iff_exists.mp h.1
    rw [hexValueFrom, List.foldl_cons, hdigit, Option.getD_some, ← hexValueFrom] at hlt ⊢
    -- the value only grows, so no step overflows
    have hstep : pushDigit value c = some (value * 16 + digit) := by
      rw [pushDigit, hdigit, Option.bind_eq_bind, Option.bind_some,
        if_pos ((le_hexValueFrom digits _).trans_lt hlt)]
    rw [List.foldlM_cons, hstep, Option.bind_eq_bind, Option.bind_some, ih h.2 _ hlt]

/-- A `usize` written in hexadecimal. -/
structure HexUsize where
  /-- The digits, of either case. -/
  digits : List Char
  /-- There is one. -/
  ne_nil : digits ≠ []
  /-- They are digits. -/
  isHex : (digits.all fun c => (hexDigit c).isSome) = true
  /-- The number is a `usize`. -/
  lt : hexValueFrom 0 digits < 2 ^ 64

namespace HexUsize

theorem isSome_of_mem (n : HexUsize) : ∀ c ∈ n.digits, (hexDigit c).isSome = true :=
  List.all_eq_true.mp n.isHex

/-- The number. -/
def value (n : HexUsize) : ℕ := hexValueFrom 0 n.digits

/-- **It is read back.** -/
theorem fromStrRadix16_digits (n : HexUsize) : fromStrRadix16 n.digits = some n.value := by
  have hhead : n.digits.head? ≠ some '+' := by
    intro hplus
    exact ne_plus_of_hexDigit (n.isSome_of_mem _ (List.mem_of_mem_head? hplus)) rfl
  rw [fromStrRadix16, if_neg hhead, if_neg n.ne_nil, foldlM_pushDigit n.isSome_of_mem 0 n.lt, value]

theorem words_digits_append (n : HexUsize) (rest : List Char) :
    (n.digits ++ ' ' :: rest).words isWhitespace = n.digits :: rest.words isWhitespace := by
  rw [List.words_append_cons (by decide),
    List.words_of_forall n.ne_nil fun c hc => isWhitespace_of_hexDigit (n.isSome_of_mem c hc),
    List.singleton_append]

end HexUsize

/-! ### Well-formed lines -/

/-- A line of the file: `<start> <len> <name>`. -/
structure PerfLine where
  start : HexUsize
  len : HexUsize
  name : List Char

namespace PerfLine

/-- The line without its end. -/
def text (line : PerfLine) : List Char :=
  line.start.digits ++ ' ' :: (line.len.digits ++ ' ' :: line.name)

/-- The digits have no line feed in them, nor do the spaces. -/
theorem not_mem_text (line : PerfLine) (h : '\n' ∉ line.name) : '\n' ∉ line.text := by
  have hdigits : ∀ n : HexUsize, '\n' ∉ n.digits := fun n hmem =>
    absurd (n.isSome_of_mem _ hmem) (by decide)
  simp only [text, List.mem_append, List.mem_cons, hdigits, h, false_or, or_false]
  decide

/-- The address is in the range of the line. -/
def Contains (line : PerfLine) (addr : ℕ) : Prop :=
  line.start.value ≤ addr ∧ addr < line.start.value + line.len.value

instance (line : PerfLine) (addr : ℕ) : Decidable (line.Contains addr) :=
  inferInstanceAs (Decidable (_ ∧ _))

/-- The first line that has the address. -/
def first (lines : List PerfLine) (addr : ℕ) : Option PerfLine :=
  lines.find? fun line => line.Contains addr

/-- The name as it is read: its words with a space between them. -/
def joined (line : PerfLine) : List Char := [' '].intercalate (line.name.words isWhitespace)

/-- The range of the line. -/
def range (line : PerfLine) : ℕ × ℕ × List Char :=
  (line.start.value, line.start.value + line.len.value, line.joined)

theorem parseLine_text (line : PerfLine) :
    parseLine line.text = some (line.start.value, line.len.value, line.joined) := by
  have hwords : line.text.words isWhitespace =
      line.start.digits :: line.len.digits :: line.name.words isWhitespace := by
    rw [text, HexUsize.words_digits_append, HexUsize.words_digits_append]
  simp only [parseLine, hwords, List.getElem?_cons_zero, List.getElem?_cons_succ,
    Option.bind_eq_bind, Option.bind_some, HexUsize.fromStrRadix16_digits, List.drop_succ_cons,
    List.drop_zero, joined]

end PerfLine

/-! ### Reading well-formed files -/

/-- A carriage return at the end is in no word. -/
theorem words_chomp (line : List Char) :
    (chomp line).words isWhitespace = line.words isWhitespace := by
  unfold chomp
  split
  · next hlast =>
    conv_rhs => rw [← List.dropLast_append_getLast? '\r' hlast]
    rw [List.words_concat (by decide)]
  · rfl

theorem parseLine_chomp (line : List Char) : parseLine (chomp line) = parseLine line := by
  rw [parseLine, words_chomp, parseLine]

/-- What is parsed are the lines of the file, for whether a line was chomped makes no
difference. -/
theorem bind_bufLines (file : List UInt8) :
    (bufLines file).map (Option.bind · parseLine) =
      (file.readLines 0x0a).map fun piece => (decode piece).bind parseLine := by
  have hchomp : ∀ piece, ((decode piece).map chomp).bind parseLine =
      (decode piece).bind parseLine := by
    intro piece
    cases decode piece with
    | none => rfl
    | some line => exact parseLine_chomp line
  obtain ⟨init, last, hpieces⟩ : ∃ init last, file.splitOn 0x0a = init ++ [last] :=
    ⟨_, _, (List.dropLast_append_getLast (List.splitOn_ne_nil 0x0a file)).symm⟩
  have hgetLast : (init ++ [last]).getLast? = some last := List.getLast?_concat
  rw [bufLines, List.readLines, hpieces, hgetLast, List.dropLast_concat, List.map_append,
    List.map_map]
  cases last with
  | nil =>
    rw [if_pos rfl, List.map_nil, List.append_nil]
    exact List.map_congr_left fun piece _ => hchomp piece
  | cons b bs =>
    rw [if_neg (by simp), List.map_append]
    exact congrArg₂ _ (List.map_congr_left fun piece _ => hchomp piece) rfl

namespace PerfLine

/-- The bytes of the line. -/
def bytes (line : PerfLine) : List UInt8 := encode line.text

/-- The end of the range is a `usize`. -/
def Fits (line : PerfLine) : Prop := line.start.value + line.len.value < 2 ^ 64

instance (line : PerfLine) : Decidable line.Fits := inferInstanceAs (Decidable (_ < _))

end PerfLine

namespace PerfMap

variable {file : List UInt8} {lines : List PerfLine}

/-- The lines of a file are these, with or without a line feed after the last one. -/
def HasLines (file : List UInt8) (lines : List PerfLine) : Prop :=
  file.readLines 0x0a = lines.map PerfLine.bytes

/-- A file of lines each with its line feed, none of which is in a name. -/
theorem hasLines_closeLines (h : ∀ line ∈ lines, '\n' ∉ line.name) :
    HasLines (List.closeLines 0x0a (lines.map PerfLine.bytes)) lines := by
  refine List.readLines_closeLines fun bytes hbytes => ?_
  obtain ⟨line, hline, rfl⟩ := List.mem_map.mp hbytes
  exact fun hmem => line.not_mem_text (h line hline) (mem_encode hmem)

theorem HasLines.parsed (h : HasLines file lines) :
    (bufLines file).map (Option.bind · parseLine) =
      lines.map fun line => some (line.start.value, line.len.value, line.joined) := by
  rw [bind_bufLines, h, List.map_map]
  refine List.map_congr_left fun line _ => ?_
  rw [Function.comp_apply, PerfLine.bytes, decode_encode, Option.bind_some,
    PerfLine.parseLine_text]

/-- One round of the loop on a line that can be read. -/
theorem newLoop_cons {line : Option (List Char)} {start len : ℕ} {name : List Char}
    (h : line.bind parseLine = some (start, len, name)) (rest : List (Option (List Char)))
    (ranges : List (ℕ × ℕ × List Char)) :
    newLoop (line :: rest) ranges =
      (usizeAdd start len).bind fun stop => newLoop rest (ranges ++ [(start, stop, name)]) := by
  rw [newLoop, h]
  simp only
  cases usizeAdd start len with
  | none => rfl
  | some stop => rfl

/-- The loop on lines that can be read: it ends with a range for each of them, or with a panic. -/
theorem newLoop_eq (lines : List PerfLine) : ∀ (texts : List (Option (List Char)))
    (ranges : List (ℕ × ℕ × List Char)),
    texts.map (Option.bind · parseLine) =
        lines.map (fun line => some (line.start.value, line.len.value, line.joined)) →
      newLoop texts ranges =
        if ∀ line ∈ lines, line.Fits then some (some ⟨ranges ++ lines.map PerfLine.range⟩)
        else none := by
  induction lines with
  | nil =>
    intro texts ranges h
    rw [List.map_nil, List.map_eq_nil_iff] at h
    subst h
    rw [newLoop, if_pos (by simp), List.map_nil, List.append_nil]
  | cons line lines ih =>
    intro texts ranges h
    cases texts with
    | nil => cases h
    | cons text texts =>
      rw [List.map_cons, List.map_cons, List.cons.injEq] at h
      obtain ⟨hline, hrest⟩ := h
      rw [newLoop_cons hline]
      by_cases hfits : line.Fits
      · rw [usizeAdd, if_pos (show line.start.value + line.len.value < 2 ^ 64 from hfits),
          Option.bind_some, ih texts _ hrest]
        simp only [List.forall_mem_cons, hfits, true_and, List.append_assoc, List.map_cons,
          List.singleton_append, PerfLine.range]
      · rw [usizeAdd, if_neg (show ¬line.start.value + line.len.value < 2 ^ 64 from hfits),
          Option.bind_none, if_neg fun hall => hfits (hall line List.mem_cons_self)]

/-- **What `new` makes of well-formed lines**: a range for each, unless an end overflows. -/
theorem new_eq (h : HasLines file lines) :
    new file = if ∀ line ∈ lines, line.Fits then some (some ⟨lines.map PerfLine.range⟩)
      else none := by
  rw [new, newLoop_eq lines _ [] h.parsed, List.nil_append]

/-- An address is found in the first line that has it, under the name joined again. -/
theorem find_ranges (lines : List PerfLine) (addr : ℕ) :
    (⟨lines.map PerfLine.range⟩ : PerfMap).find addr =
      (PerfLine.first lines addr).map PerfLine.joined := by
  have hpred : ((fun range : ℕ × ℕ × List Char => decide (range.1 ≤ addr) &&
      decide (addr < range.2.1)) ∘ PerfLine.range) = fun line => decide (line.Contains addr) := by
    funext line
    exact (Bool.decide_and _ _).symm
  rw [find, List.find?_map, hpred, PerfLine.first, Option.map_map]
  rfl

/-- The file is read, and each address is found in the first line that has it, with its name. -/
def Exact (file : List UInt8) (lines : List PerfLine) : Prop :=
  ∃ m, new file = some (some m) ∧
    ∀ addr < 2 ^ 64, m.find addr = (PerfLine.first lines addr).map PerfLine.name

/-- **A file of well-formed lines is read exactly** if and only if every end is a `usize` and the
names of the lines that some address is found in are words with single spaces between them. -/
theorem isExact_iff (h : HasLines file lines) :
    Exact file lines ↔ (∀ line ∈ lines, line.Fits) ∧
      ∀ addr < 2 ^ 64, ∀ line, PerfLine.first lines addr = some line →
        line.name.Spaced isWhitespace ' ' := by
  have hjoined : ∀ line : PerfLine,
      line.joined = line.name ↔ line.name.Spaced isWhitespace ' ' := fun line =>
    List.intercalate_words_eq_iff (by decide) line.name
  constructor
  · rintro ⟨m, hm, hfind⟩
    rw [new_eq h] at hm
    split_ifs at hm with hfits
    · rw [Option.some.injEq, Option.some.injEq] at hm
      refine ⟨hfits, fun addr haddr line hline => ?_⟩
      have hname := hfind addr haddr
      rw [← hm, find_ranges, hline, Option.map_some, Option.map_some, Option.some.injEq] at hname
      exact (hjoined line).mp hname
  · rintro ⟨hfits, hspaced⟩
    refine ⟨⟨lines.map PerfLine.range⟩, by rw [new_eq h, if_pos hfits], fun addr haddr => ?_⟩
    rw [find_ranges]
    cases hline : PerfLine.first lines addr with
    | none => rfl
    | some line =>
      rw [Option.map_some, Option.map_some, (hjoined line).mpr (hspaced addr haddr line hline)]

/-- A line with two words in its name. -/
def twoWords : PerfLine where
  start := ⟨['1', '0'], by decide, by decide, by decide⟩
  len := ⟨['2', 'A'], by decide, by decide, by decide⟩
  name := ['J', 'S', ' ', 'f']

/-- A line inside the range of that one, with two spaces between the words. -/
def twoSpaces : PerfLine where
  start := ⟨['1', '8'], by decide, by decide, by decide⟩
  len := ⟨['8'], by decide, by decide, by decide⟩
  name := ['J', 'S', ' ', ' ', 'f']

/-- A line of the last byte of the address space: its end is not a `usize`. -/
def lastByte : PerfLine where
  start := ⟨List.replicate 16 'f', by decide, by decide, by decide⟩
  len := ⟨['1'], by decide, by decide, by decide⟩
  name := ['g']

/-- Behind the first line the second is never found, so both together are read exactly. -/
theorem isExact_iff_twoWords :
    Exact (List.closeLines 0x0a ([twoWords, twoSpaces].map PerfLine.bytes))
      [twoWords, twoSpaces] := by
  refine (isExact_iff (hasLines_closeLines (by decide))).mpr
    ⟨by decide, fun addr _ line hline => ?_⟩
  have hmem := List.mem_of_find?_eq_some hline
  rw [List.mem_cons, List.mem_singleton] at hmem
  rcases hmem with rfl | rfl
  · decide
  · exfalso
    have hcontains : twoSpaces.Contains addr := by simpa using List.find?_some hline
    have hlow : 24 ≤ addr := hcontains.1
    have hhigh : addr < 32 := hcontains.2
    have houter : twoWords.Contains addr :=
      ⟨show 16 ≤ addr by omega, show addr < 58 by omega⟩
    rw [PerfLine.first, List.find?_cons_of_pos (by simpa using houter)] at hline
    exact absurd (congrArg PerfLine.name (Option.some.inj hline)) (by decide)

/-- **By itself the second line is not read exactly**, for its name comes back with one space; nor
is a line whose end overflows. -/
theorem twoSpaces_lastByte_not_exact :
    (HasLines (List.closeLines 0x0a ([twoSpaces].map PerfLine.bytes)) [twoSpaces] ∧
      ¬Exact (List.closeLines 0x0a ([twoSpaces].map PerfLine.bytes)) [twoSpaces]) ∧
    HasLines (List.closeLines 0x0a ([lastByte].map PerfLine.bytes)) [lastByte] ∧
      ¬Exact (List.closeLines 0x0a ([lastByte].map PerfLine.bytes)) [lastByte] := by
  have hspaces : HasLines (List.closeLines 0x0a ([twoSpaces].map PerfLine.bytes)) [twoSpaces] :=
    hasLines_closeLines (by decide)
  have hlast : HasLines (List.closeLines 0x0a ([lastByte].map PerfLine.bytes)) [lastByte] :=
    hasLines_closeLines (by decide)
  refine ⟨⟨hspaces, ?_⟩, hlast, ?_⟩
  · rintro ⟨m, hm, hfind⟩
    rw [new_eq hspaces, if_pos (by decide), Option.some.injEq, Option.some.injEq] at hm
    have hname := hfind 0x18 (by decide)
    rw [← hm, find_ranges] at hname
    exact absurd hname (by decide)
  · rintro ⟨m, hm, -⟩
    rw [new_eq hlast, if_neg (by decide)] at hm
    cases hm

end PerfMap

end Rpprof
