import Mathlib.Tactic.IntervalCases
import Mathlib.Order.Lattice
import Rpprof.Profiler.Frames

/-!
# Lossy text that loses nothing

`String::from_utf8_lossy` reads names back from bytes.  Of bytes that encode a text it makes the
text: each character is begun by its lead byte, whose range says how many bytes follow and which
the next may be, and each of these fits.

## Main results

* `PartialChar.decode_utf8EncodeChar` — a character is read back from its bytes.
* `fromUtf8Lossy_encode` — **and so is a text**.
-/

namespace Rpprof

namespace PartialChar

theorem ofNat_le_ofNat {m n : ℕ} (hm : m < 256) (hn : n < 256) :
    UInt8.ofNat m ≤ UInt8.ofNat n ↔ m ≤ n := by
  rw [UInt8.le_iff_toNat_le, UInt8.toNat_ofNat', UInt8.toNat_ofNat', Nat.mod_eq_of_lt hm,
    Nat.mod_eq_of_lt hn]

/-- A byte that continues a character. -/
theorem decode_continue {low high more bits n : ℕ} (hlow : low ≤ n) (hhigh : n ≤ high)
    (hlt : high < 256) (rest : List UInt8) :
    decode (some ⟨UInt8.ofNat low, UInt8.ofNat high, more, bits⟩) (UInt8.ofNat n :: rest) =
      match more with
      | 0 => Char.ofNat (bits * 64 + n % 64) :: decode none rest
      | more + 1 =>
        decode (some ⟨UInt8.ofNat 0x80, UInt8.ofNat 0xBF, more, bits * 64 + n % 64⟩) rest := by
  have hfit : UInt8.ofNat low ≤ UInt8.ofNat n ∧ UInt8.ofNat n ≤ UInt8.ofNat high :=
    ⟨(ofNat_le_ofNat (by omega) (by omega)).mpr hlow, (ofNat_le_ofNat (by omega) hlt).mpr hhigh⟩
  have hn : (UInt8.ofNat n).toNat = n := by
    rw [UInt8.toNat_ofNat', Nat.mod_eq_of_lt (by omega)]
  rw [decode, feed, if_pos hfit, hn]
  cases more <;> rfl

/-- A byte that begins a character. -/
theorem decode_lead {n : ℕ} {p : PartialChar} (hn : 128 ≤ n) (hlt : n < 256)
    (hlead : ofLead (UInt8.ofNat n) = some p) (rest : List UInt8) :
    decode none (UInt8.ofNat n :: rest) = decode (some p) rest := by
  have hge : ¬UInt8.ofNat n < 0x80 := by
    rw [UInt8.lt_iff_toNat_lt, UInt8.toNat_ofNat', Nat.mod_eq_of_lt hlt, not_lt]
    exact hn
  rw [decode, feed, first, if_neg hge, hlead]
  rfl

theorem ofLead_two {n : ℕ} (h : 0xC2 ≤ n) (h' : n ≤ 0xDF) :
    ofLead (UInt8.ofNat n) = some ⟨UInt8.ofNat 0x80, UInt8.ofNat 0xBF, 0, n % 32⟩ := by
  interval_cases n <;> rfl

theorem ofLead_three {n : ℕ} (h : 0xE0 ≤ n) (h' : n ≤ 0xEF) :
    ofLead (UInt8.ofNat n) = some ⟨UInt8.ofNat (if n = 0xE0 then 0xA0 else 0x80),
      UInt8.ofNat (if n = 0xED then 0x9F else 0xBF), 1, n % 16⟩ := by
  interval_cases n <;> rfl

theorem ofLead_four {n : ℕ} (h : 0xF0 ≤ n) (h' : n ≤ 0xF4) :
    ofLead (UInt8.ofNat n) = some ⟨UInt8.ofNat (if n = 0xF0 then 0x90 else 0x80),
      UInt8.ofNat (if n = 0xF4 then 0x8F else 0xBF), 2, n % 8⟩ := by
  interval_cases n <;> rfl

/-- **A character is read back from its bytes.** -/
theorem decode_utf8EncodeChar (c : Char) (rest : List UInt8) :
    decode none (String.utf8EncodeChar c ++ rest) = c :: decode none rest := by
  have hvalid : c.val.toNat < 0xd800 ∨ 0xdfff < c.val.toNat ∧ c.val.toNat < 0x110000 := c.valid
  have hc : Char.ofNat c.val.toNat = c := Char.ofNat_toNat c
  unfold String.utf8EncodeChar
  generalize c.val.toNat = v at hvalid hc ⊢
  simp only
  split_ifs with h1 h2 h3
  · have hlt : UInt8.ofNat v < 0x80 := by
      rw [UInt8.lt_iff_toNat_lt, UInt8.toNat_ofNat', Nat.mod_eq_of_lt (by omega)]
      exact Nat.lt_succ_of_le h1
    have hv : (UInt8.ofNat v).toNat = v := by
      rw [UInt8.toNat_ofNat', Nat.mod_eq_of_lt (by omega)]
    rw [List.singleton_append, decode, feed, first, if_pos hlt, hv, hc]
    rfl
  · have hbits : (v / 64 % 32 + 192) % 32 * 64 + (v % 64 + 128) % 64 = v := by omega
    rw [List.cons_append, List.singleton_append,
      decode_lead (by omega) (by omega) (ofLead_two (by omega) (by omega)),
      decode_continue (by omega) (by omega) (by omega)]
    simp only [hbits, hc]
  · have hbits : ((v / 4096 % 16 + 224) % 16 * 64 + (v / 64 % 64 + 128) % 64) * 64 +
        (v % 64 + 128) % 64 = v := by omega
    rw [List.cons_append, List.cons_append, List.singleton_append,
      decode_lead (by omega) (by omega) (ofLead_three (by omega) (by omega)),
      decode_continue (by split <;> omega) (by split <;> omega) (by split <;> omega)]
    simp only
    rw [decode_continue (by omega) (by omega) (by omega)]
    simp only [hbits, hc]
  · have hbits : (((v / 262144 % 8 + 240) % 8 * 64 + (v / 4096 % 64 + 128) % 64) * 64 +
        (v / 64 % 64 + 128) % 64) * 64 + (v % 64 + 128) % 64 = v := by omega
    rw [List.cons_append, List.cons_append, List.cons_append, List.singleton_append,
      decode_lead (by omega) (by omega) (ofLead_four (by omega) (by omega)),
      decode_continue (by split <;> omega) (by split <;> omega) (by split <;> omega)]
    simp only
    rw [decode_continue (by omega) (by omega) (by omega)]
    simp only
    rw [decode_continue (by omega) (by omega) (by omega)]
    simp only [hbits, hc]

end PartialChar

/-- **Text is read back from its bytes.** -/
theorem fromUtf8Lossy_encode (text : List Char) :
    fromUtf8Lossy (text.flatMap String.utf8EncodeChar) = String.ofList text := by
  rw [fromUtf8Lossy]
  refine congrArg String.ofList ?_
  induction text with
  | nil => rfl
  | cons c text ih => rw [List.flatMap_cons, PartialChar.decode_utf8EncodeChar, ih]

end Rpprof
