import Stdplus.Numeric.Encode

namespace Stdplus.Numeric

open Stdplus.Base

def digitChars : List CharT := "0123456789abcdefghijklmnopqrstuvwxyz".toList.map ch

def plainDigits (radix : Radix) (v : Nat) : List CharT :=
  if v < radix.base then [digitChars.getD v 0]
  else plainDigits radix (v / radix.base) ++ [digitChars.getD (v % radix.base) 0]
termination_by v
decreasing_by
  have large := radix.large
  exact Nat.div_lt_self (by omega) large

/-- The representation with zeros on its left up to the width. -/
def plain (radix : Radix) (v minWidth : Nat) : List CharT :=
  List.replicate (minWidth - (plainDigits radix v).length) (ch '0') ++ plainDigits radix v

private theorem singleIntTable_digitChars : ∀ digit, digit < maxBase →
    singleIntTable digit = digitChars.getD digit 0 := by
  decide +kernel

theorem plainDigits_eq (radix : Radix) (v : Nat) : plainDigits radix v = numeral radix v 0 := by
  have large := radix.large
  have bounded := radix.bounded
  induction v using Nat.strong_induction_on with
  | _ v ih =>
    rw [plainDigits]
    split
    · rename_i single
      have digit : paddedDigits radix.base 0 v = [v] := by
        by_cases zero : v = 0
        · simp [zero, paddedDigits]
        · rw [paddedDigits, Nat.digits_of_lt radix.base v zero single]
          rfl
      rw [numeral, digit, ← singleIntTable_digitChars v (by omega)]
      rfl
    · rename_i several
      have more := Nat.le_of_not_lt several
      have last : v % radix.base < maxBase := Nat.lt_of_lt_of_le (Nat.mod_lt v (by omega)) bounded
      rw [ih (v / radix.base) (Nat.div_lt_self (by omega) large), ← singleIntTable_digitChars _ last, numeral,
        numeral, paddedDigits_step large more, List.map_cons, List.reverse_cons]

private theorem paddedDigits_width (base width value : Nat) : paddedDigits base width value =
    paddedDigits base 0 value ++ List.replicate (width - (paddedDigits base 0 value).length) 0 := by
  rw [paddedDigits_length, paddedDigits, paddedDigits, List.append_assoc, List.replicate_append_replicate]
  congr 2
  omega

theorem numeral_eq_plain (radix : Radix) (v minWidth : Nat) : numeral radix v minWidth = plain radix v minWidth := by
  have length : (plainDigits radix v).length = (paddedDigits radix.base 0 v).length := by
    rw [plainDigits_eq, numeral, List.length_reverse, List.length_map]
  rw [plain, length, plainDigits_eq, numeral, paddedDigits_width, List.map_append, List.reverse_append,
    List.map_replicate, List.reverse_replicate, numeral]
  rfl

private theorem blocks_length_le (radix : Radix) (v minWidth : Nat) :
    max (blockDigits radix.base (multiIntSupport radix.base) v).length minWidth ≤
      (numeral radix v minWidth).length + 1 := by
  rw [blockDigits_length _ _ _ (multiIntSupport_pos radix.base), numeral_length]
  unfold multiIntSupport
  split <;> omega

private theorem blocks_length_le_64 (radix : Radix) (v : UInt64) :
    (blockDigits radix.base (multiIntSupport radix.base) v.toNat).length ≤ 64 := by
  have power : 2 ^ 64 ≤ radix.base ^ 64 := Nat.pow_le_pow_left radix.large 64
  have short := (Nat.digits_length_le_iff (k := 64) radix.large v.toNat).mpr
    (Nat.lt_of_lt_of_le v.toNat_lt power)
  rw [blockDigits_length _ _ _ (multiIntSupport_pos radix.base)]
  unfold multiIntSupport
  split <;> omega

/-- Whichever way the digits are made, two at a time from the table, by mask and shift or by
division, what is written is the plain representation, with no cell stored below it and one
behind it at most; and the counter of the loop, a `uint8_t`, does not wrap around. The table
of the block sizes has no entry for base 36, for which there is no instance. -/
theorem uintToStr_plain (radix : Radix) (v : UInt64) (minWidth : UInt8) :
    (∃ reach, Emits (uintToStr radix v.toNat minWidth.toNat) (plain radix v.toNat minWidth.toNat) reach ∧
        reach ≤ (plain radix v.toNat minWidth.toNat).length + 1) ∧
      (∀ mem, (uintToStr radix v.toNat minWidth.toNat).shown mem = plain radix v.toNat minWidth.toNat) ∧
      ∀ buf buffer, (uintToStrLoop radix buf v.toNat 0 buffer).1 ≤ 64 := by
  have emits := uintToStr_emits radix v.toNat minWidth.toNat
  have reach := blocks_length_le radix v.toNat minWidth.toNat
  rw [numeral_eq_plain] at emits reach
  refine ⟨⟨_, emits, reach⟩, emits.shown, fun buf buffer => ?_⟩
  rw [uintToStrLoop_eq]
  simpa using blocks_length_le_64 radix v

example : plain decimal 90 4 = "0090".toList.map ch := by decide +kernel

end Stdplus.Numeric
