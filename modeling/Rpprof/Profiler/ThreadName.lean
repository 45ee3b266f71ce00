import Rpprof.Profiler.Profiler
import Mathlib.Data.Nat.Log

/-!
# The fallback for a thread's name

A thread whose name is not to be had is named by its number.  The fallback grows a power of
ten until it is at least the number, or a digit for each byte of the buffer is counted, and
divides its way back down, a digit a round.  It writes the lowest digits, as many as were
counted: too few where the power of ten is the number itself, and for zero, and one more
than leaves room for the end of the string where the number is large.

## Main definitions

* `lowDigits`, `decimal` — what is written, and what was meant.
* `NamesThread` — the fallback leaves the number's decimal representation, or a string that
  ends in the buffer at least.

## Main results

* `cStr_writeThreadNameFallback` — the string that is read back.
* `namesThread_iff` — **the numbers that have a name**.
-/

namespace Rpprof

/-! ### Digits -/

/-- The lowest digits of a number in ASCII, highest first. -/
def lowDigits (v : ℕ) : ℕ → List UInt8
  | 0 => []
  | k + 1 => UInt8.ofNat (48 + v / 10 ^ k % 10) :: lowDigits v k

/-- The decimal representation, as bytes. -/
def decimal (v : ℕ) : List UInt8 := (toString v).toUTF8.data.toList

@[simp] theorem length_lowDigits (v k : ℕ) : (lowDigits v k).length = k := by
  induction k with
  | zero => rfl
  | succ k ih => rw [lowDigits, List.length_cons, ih]

/-- A digit is not the end of a string. -/
theorem ne_zero_of_mem_lowDigits {v k : ℕ} {d : UInt8} (h : d ∈ lowDigits v k) : d ≠ 0 := by
  induction k with
  | zero => cases h
  | succ k ih =>
    rw [lowDigits, List.mem_cons] at h
    rcases h with rfl | h
    · have hdigit : v / 10 ^ k % 10 < 10 := Nat.mod_lt _ (by decide)
      have hfit : 48 + v / 10 ^ k % 10 < UInt8.size := by
        rw [UInt8.size]
        omega
      rw [Ne, ← UInt8.toNat_inj, UInt8.toNat_ofNat_of_lt' hfit]
      exact Nat.ne_of_gt (Nat.add_pos_left (by decide) _)
    · exact ih h

/-- The last of the lowest digits is the remainder, and the others are those of the
quotient. -/
theorem lowDigits_succ (v k : ℕ) :
    lowDigits v (k + 1) = lowDigits (v / 10) k ++ [UInt8.ofNat (48 + v % 10)] := by
  induction k with
  | zero => simp [lowDigits]
  | succ k ih =>
    rw [lowDigits, ih, lowDigits, List.cons_append, Nat.div_div_eq_div_mul, ← pow_succ']

/-- The digits are ASCII, so a byte each. -/
theorem decimal_eq_map (v : ℕ) :
    decimal v = (Nat.toDigits 10 v).map fun c => UInt8.ofNat c.toNat := by
  have hascii : ∀ c ∈ Nat.toDigits 10 v, String.utf8EncodeChar c = [UInt8.ofNat c.toNat] := by
    intro c hc
    have hdigit := Nat.isDigit_of_mem_toDigits (by decide) (by decide) hc
    simp only [Char.isDigit, Bool.and_eq_true, decide_eq_true_eq] at hdigit
    have hle : c.val ≤ 127 := UInt32.le_trans hdigit.2 (by decide)
    rw [String.utf8EncodeChar_eq_singleton (Char.utf8Size_eq_one_iff.mpr hle)]
    rfl
  rw [decimal, Nat.toString_eq_ofList_toDigits, String.toUTF8_eq_toByteArray,
    String.toByteArray_ofList, List.utf8Encode, List.toList_data_toByteArray,
    List.flatMap_congr hascii, List.map_eq_flatMap]

theorem decimal_eq_if (v : ℕ) :
    decimal v = (if v < 10 then [] else decimal (v / 10)) ++ [UInt8.ofNat (48 + v % 10)] := by
  rw [decimal_eq_map, Nat.toDigits_eq_if (by decide)]
  split_ifs with hlt
  · rw [List.map_singleton, Nat.toNat_digitChar_of_lt_ten hlt, Nat.mod_eq_of_lt hlt]
    rfl
  · rw [List.map_append, ← decimal_eq_map, List.map_singleton,
      Nat.toNat_digitChar_of_lt_ten (Nat.mod_lt _ (by decide))]

/-- **The decimal representation is that many of the lowest digits.** -/
theorem lowDigits_length_decimal (v : ℕ) : lowDigits v (decimal v).length = decimal v := by
  induction v using Nat.strong_induction_on with
  | _ v ih =>
    rw [decimal_eq_if, List.length_append, List.length_singleton, lowDigits_succ]
    split_ifs with hlt
    · rfl
    · rw [ih (v / 10) (by omega)]

theorem length_decimal (v : ℕ) : (decimal v).length = Nat.log 10 v + 1 := by
  rw [decimal_eq_map, List.length_map]
  apply le_antisymm
  · rw [Nat.length_toDigits_le_iff (by decide) (Nat.succ_pos _)]
    exact Nat.lt_pow_succ_log_self (by decide) v
  · by_contra hlt
    rw [not_le, Nat.lt_succ_iff] at hlt
    have hpos : 0 < Nat.log 10 v := lt_of_lt_of_le Nat.length_toDigits_pos hlt
    have hv : v ≠ 0 := by
      rintro rfl
      rw [Nat.log_zero_right] at hpos
      exact absurd hpos (lt_irrefl 0)
    rw [Nat.length_toDigits_le_iff (by decide) hpos] at hlt
    exact absurd (Nat.pow_log_le_self 10 hv) (not_le.mpr hlt)

/-- The two logarithms are one apart, but for zero and the powers of the base. -/
theorem clog_eq_log_add_one_iff {b v : ℕ} (hb : 1 < b) :
    Nat.clog b v = Nat.log b v + 1 ↔ v ≠ 0 ∧ ∀ k, v ≠ b ^ k := by
  constructor
  · intro h
    refine ⟨?_, ?_⟩
    · rintro rfl
      rw [Nat.clog_zero_right, Nat.log_zero_right] at h
      exact absurd h (by decide)
    · rintro k rfl
      rw [Nat.clog_pow b k hb, Nat.log_pow hb] at h
      omega
  · rintro ⟨hv, hpow⟩
    apply le_antisymm
    · exact Nat.clog_le_of_le_pow (Nat.lt_pow_succ_log_self hb v).le
    · rw [Nat.succ_le_iff, Nat.lt_clog_iff_pow_lt hb]
      exact lt_of_le_of_ne (Nat.pow_log_le_self b hv) (hpow _).symm

/-! ### The two loops -/

/-- The first loop stops at the first power of ten that is at least the value, or after its
rounds. -/
theorem fallbackScale_eq (v rounds len : ℕ) (hlen : len ≤ Nat.clog 10 v) :
    fallbackScale v rounds (10 ^ len) len =
      (10 ^ min (len + rounds) (Nat.clog 10 v), min (len + rounds) (Nat.clog 10 v)) := by
  induction rounds generalizing len with
  | zero => rw [fallbackScale, Nat.add_zero, min_eq_left hlen]
  | succ rounds ih =>
    rw [fallbackScale]
    split_ifs with hlt
    · rw [← pow_succ, ih (len + 1) ((Nat.lt_clog_iff_pow_lt (by decide)).mpr hlt),
        Nat.add_right_comm, Nat.add_assoc]
    · have hle : Nat.clog 10 v ≤ len := Nat.clog_le_of_le_pow (not_lt.mp hlt)
      rw [le_antisymm hle hlen, min_eq_right (Nat.le_add_right _ _)]

/-- The first loop, as it is entered. -/
theorem fallbackScale_start (v : ℕ) : fallbackScale v maxThreadName 1 0 =
    (10 ^ min maxThreadName (Nat.clog 10 v), min maxThreadName (Nat.clog 10 v)) := by
  have hscale := fallbackScale_eq v maxThreadName 0 (Nat.zero_le _)
  rwa [pow_zero, Nat.zero_add] at hscale

/-- The second writes the digits in turn. -/
theorem fallbackDigits_eq (v rounds index : ℕ) (name : List UInt8)
    (hfit : index + rounds ≤ name.length) :
    fallbackDigits v rounds (10 ^ rounds) index name =
      name.take index ++ lowDigits v rounds ++ name.drop (index + rounds) := by
  induction rounds generalizing index name with
  | zero => simp [fallbackDigits, lowDigits]
  | succ rounds ih =>
    have hbase : 10 ^ (rounds + 1) > 1 := Nat.one_lt_pow (Nat.succ_ne_zero _) (by decide)
    have hdiv : 10 ^ (rounds + 1) / 10 = 10 ^ rounds := by
      rw [pow_succ, Nat.mul_div_cancel _ (by decide)]
    have hindex : index < name.length := by omega
    have htake : (name.set index (UInt8.ofNat (48 + v / 10 ^ rounds % 10))).take (index + 1) =
        name.take index ++ [UInt8.ofNat (48 + v / 10 ^ rounds % 10)] := by
      rw [List.take_add_one, List.getElem?_set_self hindex, List.take_set_of_le (le_refl _)]
      rfl
    rw [fallbackDigits, if_pos hbase, hdiv, ih _ _ (by rw [List.length_set]; omega), htake,
      List.drop_set_of_lt (by omega), lowDigits, List.append_assoc (name.take index),
      List.singleton_append, Nat.add_right_comm, Nat.add_assoc]

/-! ### The string -/

/-- A buffer of zeros. -/
def zeroed : List UInt8 := List.replicate maxThreadName 0

/-- A string with zeros after it is read back if there are any. -/
theorem cStr_append_replicate {name : List UInt8} (hname : (0 : UInt8) ∉ name) (k : ℕ) :
    cStr (name ++ List.replicate k 0) = if 0 < k then some name else none := by
  have hmem : (0 : UInt8) ∈ name ++ List.replicate k 0 ↔ 0 < k := by
    rw [List.mem_append, List.mem_replicate, Nat.pos_iff_ne_zero]
    exact ⟨fun h => h.elim (fun h => absurd h hname) And.left, fun h => Or.inr ⟨h, rfl⟩⟩
  have htake : (name ++ List.replicate k 0).takeWhile (· ≠ 0) = name := by
    rw [List.takeWhile_append_of_pos, List.takeWhile_replicate, if_neg (by decide),
      List.append_nil]
    intro c hc
    exact decide_eq_true (ne_of_mem_of_not_mem hc hname)
  simp only [cStr, hmem, htake]

/-- The buffer afterwards: the digits that were counted, and what is left of the zeros. -/
theorem writeThreadNameFallback_eq (v : ℕ) : writeThreadNameFallback v zeroed =
    lowDigits v (min maxThreadName (Nat.clog 10 v)) ++
      List.replicate (maxThreadName - min maxThreadName (Nat.clog 10 v)) 0 := by
  rw [writeThreadNameFallback, fallbackScale_start]
  show fallbackDigits v (min _ _) (10 ^ min _ _) 0 zeroed = _
  rw [fallbackDigits_eq _ _ _ _ (by simp [zeroed]), List.take_zero, List.nil_append,
    Nat.zero_add, zeroed, List.drop_replicate]

theorem length_writeThreadNameFallback (v : ℕ) :
    (writeThreadNameFallback v zeroed).length = maxThreadName := by
  rw [writeThreadNameFallback_eq, List.length_append, length_lowDigits, List.length_replicate]
  omega

/-- **The string that the fallback leaves**: nothing ends it where the value has too many
digits. -/
theorem cStr_writeThreadNameFallback (v : ℕ) :
    cStr (writeThreadNameFallback v zeroed) =
      if Nat.clog 10 v < maxThreadName then some (lowDigits v (Nat.clog 10 v)) else none := by
  rw [writeThreadNameFallback_eq,
    cStr_append_replicate fun h => ne_zero_of_mem_lowDigits h rfl]
  split_ifs with hpos hlt hlt
  · rw [min_eq_right hlt.le]
  · omega
  · omega
  · rfl

theorem clog_lt_maxThreadName_iff (v : ℕ) :
    Nat.clog 10 v < maxThreadName ↔ v ≤ 10 ^ (maxThreadName - 1) := by
  rw [← Nat.clog_le_iff_le_pow (by decide), maxThreadName]
  omega

/-- The string is the decimal representation for a value that is neither zero nor a power
of ten. -/
theorem cStr_eq_decimal_iff (v : ℕ) :
    cStr (writeThreadNameFallback v zeroed) = some (decimal v) ↔
      v ≤ 10 ^ (maxThreadName - 1) ∧ v ≠ 0 ∧ ∀ k, v ≠ 10 ^ k := by
  rw [cStr_writeThreadNameFallback, ← clog_lt_maxThreadName_iff,
    ← clog_eq_log_add_one_iff (by decide), ← length_decimal]
  constructor
  · intro h
    split_ifs at h with hlt
    rw [Option.some.injEq] at h
    exact ⟨hlt, by rw [← h, length_lowDigits]⟩
  · rintro ⟨hlt, hlength⟩
    rw [if_pos hlt, hlength, lowDigits_length_decimal]

/-- A backtrace takes a string that ends in the buffer over. -/
theorem isSome_new_of_cStr {name tn : List UInt8} (hname : name.length = maxThreadName)
    (h : cStr name = some tn) (frames : List Frame) (threadId timestamp : ℕ) :
    (UnresolvedFrames.new frames tn threadId timestamp).isSome = true := by
  have hfit : tn.length ≤ maxThreadName := by
    unfold cStr at h
    split_ifs at h
    rw [← hname, ← Option.some.inj h]
    exact (List.takeWhile_prefix _).length_le
  rw [UnresolvedFrames.new, dif_pos hfit]
  rfl

/-- The string ends in the buffer, and a backtrace takes it over. -/
def EndsInBuffer (name : List UInt8) : Prop :=
  ∃ tn, cStr name = some tn ∧
    ∀ frames threadId timestamp, (UnresolvedFrames.new frames tn threadId timestamp).isSome

theorem endsInBuffer_iff (v : ℕ) :
    EndsInBuffer (writeThreadNameFallback v zeroed) ↔ v ≤ 10 ^ (maxThreadName - 1) := by
  rw [EndsInBuffer, cStr_writeThreadNameFallback, ← clog_lt_maxThreadName_iff]
  constructor
  · rintro ⟨tn, htn, -⟩
    split_ifs at htn with hlt
    exact hlt
  · intro hlt
    have hname := cStr_writeThreadNameFallback v
    rw [if_pos hlt] at hname ⊢
    exact ⟨_, rfl, isSome_new_of_cStr (length_writeThreadNameFallback v) hname⟩

/-- The fallback names a thread by its number: the power of ten fits its 128 bits and the
writes the buffer, the string ends in the buffer, and it is the decimal representation where
this leaves room for the end. -/
structure NamesThread (v : ℕ) : Prop where
  base : (fallbackScale v maxThreadName 1 0).1 < 2 ^ 128
  written : (fallbackScale v maxThreadName 1 0).2 ≤ maxThreadName
  ends : EndsInBuffer (writeThreadNameFallback v zeroed)
  exact : (decimal v).length ≤ maxThreadName - 1 →
    cStr (writeThreadNameFallback v zeroed) = some (decimal v)

/-- **The fallback names a thread by a number of at most fifteen digits that is neither zero
nor a power of ten**; the least of sixteen digits leaves a string that ends, and no other
number does. -/
theorem namesThread_iff (v : ℕ) : NamesThread v ↔
    v ≤ 10 ^ (maxThreadName - 1) ∧ v ≠ 0 ∧ ∀ k < maxThreadName - 1, v ≠ 10 ^ k := by
  constructor
  · rintro ⟨-, -, hends, hexact⟩
    refine ⟨(endsInBuffer_iff v).mp hends, ?_, ?_⟩
    · rintro rfl
      have hroom : (decimal 0).length ≤ maxThreadName - 1 := by
        rw [length_decimal, Nat.log_zero_right]
        decide
      exact ((cStr_eq_decimal_iff 0).mp (hexact hroom)).2.1 rfl
    · rintro k hk rfl
      have hroom : (decimal (10 ^ k)).length ≤ maxThreadName - 1 := by
        rw [length_decimal, Nat.log_pow (by decide)]
        exact hk
      exact ((cStr_eq_decimal_iff (10 ^ k)).mp (hexact hroom)).2.2 k rfl
  · rintro ⟨hle, hv, hpow⟩
    have hscale := fallbackScale_start v
    refine ⟨?_, ?_, (endsInBuffer_iff v).mpr hle, fun hroom => ?_⟩
    · rw [hscale]
      exact lt_of_le_of_lt (Nat.pow_le_pow_right (by decide) (min_le_left _ _)) (by decide)
    · rw [hscale]
      exact min_le_left _ _
    · refine (cStr_eq_decimal_iff v).mpr ⟨hle, hv, ?_⟩
      -- a power beyond fifteen digits would be too long
      rintro k rfl
      rw [length_decimal, Nat.log_pow (by decide)] at hroom
      exact hpow k hroom rfl

/-- Ten is named `0`; and the largest number is written without an end. -/
theorem not_namesThread_ten_largest :
    (¬ NamesThread 10 ∧ cStr (writeThreadNameFallback 10 zeroed) = some [48]) ∧
      ¬ NamesThread 18446744073709551615 ∧
      cStr (writeThreadNameFallback 18446744073709551615 zeroed) = none := by
  have hroom : (decimal 10).length ≤ maxThreadName - 1 := by
    rw [length_decimal, Nat.log_of_one_lt_of_le (by decide) (le_refl 10)]
    decide
  refine ⟨⟨fun h => ?_, by decide⟩, fun h => ?_, by decide⟩
  · exact ((cStr_eq_decimal_iff 10).mp (h.exact hroom)).2.2 1 rfl
  · exact absurd ((endsInBuffer_iff _).mp h.ends) (by decide)

/-! ### The handler -/

/-- **The handler reads past its buffer on a thread without a name if its number is too
large; and only then.** -/
theorem Process.perfSignalHandler_eq_none_iff {β : Type*} {n : ℕ}
    [MemImage β (Entry UnresolvedFrames)] [NeZero n] (f : Features)
    (hash : UnresolvedFrames → ℕ) (s : Process β n) {t : Tick} (hheld : t.lockHeld = false)
    (haddr : s.profiler.blocks t = false) (hret : t.getname.1 ≠ 0)
    (hbuffer : t.getname.2.toList = zeroed) :
    s.perfSignalHandler f hash t = none ↔ 10 ^ (maxThreadName - 1) < t.currentThread := by
  rw [← not_le, ← endsInBuffer_iff, EndsInBuffer]
  have hwritten : writeThreadName t.currentThread t.getname.1 t.getname.2.toList =
      writeThreadNameFallback t.currentThread zeroed := by
    rw [writeThreadName, if_pos (Or.inl hret), hbuffer]
  have hlength := length_writeThreadNameFallback t.currentThread
  unfold perfSignalHandler
  rw [hheld, haddr, hwritten]
  simp only [Bool.false_eq_true, if_false]
  cases hname : cStr (writeThreadNameFallback t.currentThread zeroed) with
  | none => simp
  | some tn =>
    have hnew := isSome_new_of_cStr hlength hname
    obtain ⟨frames, hframes⟩ := Option.isSome_iff_exists.mp
      (hnew (s.profiler.collect f t.trace []) t.currentThread t.timestamp)
    simp only [hframes]
    split <;> simp [hnew]

end Rpprof
