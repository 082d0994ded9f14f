import Stdplus.Numeric.Integral

namespace Stdplus.Numeric

open Stdplus.Base

/-- Nothing is stored past the advertised size, whatever the buffer held before. -/
def Stays (host : Host) (radix : Radix) (T : IntType) (v : Int) (minWidth : Nat) : Prop :=
  ∃ writer, IntToStr.call host radix T v minWidth = some writer ∧
    ∀ mem, writer.touched mem ≤ IntToStr.bufSize radix T

/-- The least value, where it has a digit more than the greatest one, or has no negation. -/
def Overruns (host : Host) (radix : Radix) (T : IntType) (v : Int) : Prop :=
  T.isSigned ∧ v = T.min ∧
    ((∃ k, radix.base ^ k = 2 ^ (T.bits - 1)) ∨ host.ptrBits ≤ T.bits ∧ host.wraps = false)

/-- The digits of a value in whole blocks of the table. -/
def storedDigits (radix : Radix) (v : Nat) : Nat :=
  (blockDigits radix.base (multiIntSupport radix.base) v).length

theorem bufSizeLoop_eq (radix : Radix) (v i : Nat) :
    bufSizeLoop radix v i = i + (Nat.digits radix.base v).length := by
  induction v using Nat.strong_induction_on generalizing i with
  | _ v ih =>
    rw [bufSizeLoop]
    split
    · rename_i positive
      rw [ih _ (Nat.div_lt_self positive radix.large), Nat.digits_def' radix.large positive, List.length_cons]
      omega
    · rename_i nothing
      obtain rfl : v = 0 := by omega
      simp

theorem storedDigits_eq (radix : Radix) {v : Nat} (positive : 0 < v) : storedDigits radix v =
    ((Nat.digits radix.base v).length + multiIntSupport radix.base - 1) / multiIntSupport radix.base *
      multiIntSupport radix.base := by
  have size := multiIntSupport_pos radix.base
  have digit : 0 < (Nat.digits radix.base v).length :=
    List.length_pos_of_ne_nil (Nat.digits_ne_nil_iff_ne_zero.mpr (by omega))
  have block : 1 ≤ ((Nat.digits radix.base v).length + multiIntSupport radix.base - 1) /
      multiIntSupport radix.base := (Nat.one_le_div_iff size).mpr (by omega)
  rw [storedDigits, blockDigits_length _ _ _ size, Nat.max_eq_right block, Nat.mul_comm]

theorem storedDigits_mono (radix : Radix) {v other : Nat}
    (shorter : (Nat.digits radix.base v).length ≤ (Nat.digits radix.base other).length) :
    storedDigits radix v ≤ storedDigits radix other := by
  have size := multiIntSupport_pos radix.base
  rw [storedDigits, storedDigits, blockDigits_length _ _ _ size, blockDigits_length _ _ _ size]
  refine Nat.mul_le_mul_left _ (max_le_max (Nat.le_refl 1) (Nat.div_le_div_right ?_))
  omega

private theorem ten_pow_ne (k : Nat) {places : Nat} (some_place : 0 < places) : 10 ^ k ≠ 2 ^ places := by
  intro same
  cases k with
  | zero =>
    have large : 1 < 2 ^ places := Nat.one_lt_pow (by omega) (by decide)
    omega
  | succ k =>
    have five : 5 ∣ 2 ^ places := by
      rw [← same, pow_succ]
      exact Dvd.dvd.mul_left (by decide) _
    exact absurd (Nat.Prime.dvd_of_dvd_pow (by norm_num) five) (by decide)

theorem bufSize_eq (radix : Radix) (T : IntType) :
    IntToStr.bufSize radix T = storedDigits radix T.max.toNat + T.isSigned.toNat := by
  have wide := T.bits_wide
  have greatest : 0 < T.max.toNat := by
    by_cases signed : T.isSigned
    · have power : 1 < 2 ^ (T.bits - 1) := Nat.one_lt_pow (by omega) (by decide)
      rw [IntType.max_signed signed]
      omega
    · have power : 1 < 2 ^ T.bits := Nat.one_lt_pow (by omega) (by decide)
      have contains := (IntType.contains_unsigned (Bool.eq_false_of_not_eq_true signed) 1).mpr power
      have high := contains.2
      omega
  rw [IntToStr.bufSize, intToStrBufSize, bufSizeLoop_eq, Nat.zero_add, storedDigits_eq radix greatest]

/-- A power of two needs more room than the value below exactly when it is a power of the
base as well; the blocks of two digits do not hide that, for ten has no such power. -/
private theorem stored_power_iff (radix : Radix) {places : Nat} (some_place : 0 < places) :
    storedDigits radix (2 ^ places) ≤ storedDigits radix (2 ^ places - 1) ↔ ¬ ∃ k, radix.base ^ k = 2 ^ places := by
  have positive : 0 < 2 ^ places := Nat.pow_pos (by decide)
  have next : 2 ^ places - 1 + 1 = 2 ^ places := by omega
  have longer := digits_length_lt_succ_iff (2 ^ places - 1) radix.large
  rw [next] at longer
  constructor
  · rintro fits ⟨k, power⟩
    have single : multiIntSupport radix.base = 1 := by
      unfold multiIntSupport
      split
      · rename_i ten
        rw [ten] at power
        exact absurd power (ten_pow_ne k some_place)
      · rfl
    have grown := longer.mpr ⟨k, power⟩
    rw [storedDigits, storedDigits, single, blockDigits_length _ _ _ (by decide),
      blockDigits_length _ _ _ (by decide)] at fits
    simp only [Nat.add_sub_cancel, Nat.div_one, Nat.one_mul] at fits
    have one : 0 < (Nat.digits radix.base (2 ^ places - 1)).length := by
      apply List.length_pos_of_ne_nil
      refine Nat.digits_ne_nil_iff_ne_zero.mpr ?_
      have two : 1 < 2 ^ places := Nat.one_lt_pow (by omega) (by decide)
      omega
    omega
  · intro other
    exact storedDigits_mono radix (Nat.le_of_not_lt (mt longer.mp other))

section

variable {host : Host} {radix : Radix} {T : IntType} {m minWidth : Nat}
  (narrow : minWidth ≤ IntToStr.bufSize radix T - T.isSigned.toNat)

include narrow

private theorem stays_positive (contains : T.Contains m) : Stays host radix T m minWidth := by
  refine ⟨_, IntToStr.call_positive host radix minWidth contains, fun mem => ?_⟩
  have high := contains.2
  have fewer : storedDigits radix m ≤ storedDigits radix T.max.toNat :=
    storedDigits_mono radix (Nat.le_length_digits_le radix.base _ _ (by omega))
  rw [(uintToStr_emits radix m minWidth).touched mem]
  change max (storedDigits radix m) minWidth ≤ _
  have size := bufSize_eq radix T
  omega

/-- The sign takes the cell that `buf_size` has for it. -/
private theorem stays_negative (signed : T.isSigned) (positive : 0 < m) (contains : T.Contains (-m)) :
    Stays host radix T (-m) minWidth ↔
      (host.wraps ∨ -m ≠ (host.work T).min) ∧ storedDigits radix m ≤ storedDigits radix T.max.toNat := by
  have written := IntToStr.call_negative host radix minWidth signed positive contains
  have size := bufSize_eq radix T
  rw [signed, Bool.toNat_true] at size narrow
  have touched (mem : Nat → CharT) : ((Writer.put (ch '-')).seq (uintToStr radix m minWidth)).touched mem =
      max 1 (1 + max (storedDigits radix m) minWidth) :=
    ((Emits.put (ch '-')).seq (uintToStr_emits radix m minWidth)).touched mem
  constructor
  · rintro ⟨writer, emitted, within⟩
    rw [written] at emitted
    split at emitted
    · rename_i defined
      cases emitted
      have reached := within fun _ => 0
      rw [touched] at reached
      exact ⟨defined, by omega⟩
    · cases emitted
  · rintro ⟨defined, fewer⟩
    rw [if_pos defined] at written
    refine ⟨_, written, fun mem => ?_⟩
    rw [touched]
    omega

end

/-- The buffer holds all that is stored, but for the least value of a signed type where that
is a power of the base or has no negation. -/
theorem stays_iff (host : Host) (radix : Radix) (T : IntType) (v : Int) (contains : T.Contains v) (minWidth : Nat)
    (narrow : minWidth ≤ IntToStr.bufSize radix T - T.isSigned.toNat) :
    Stays host radix T v minWidth ↔ ¬ Overruns host radix T v := by
  have wide := T.bits_wide
  rcases contains.sign with ⟨m, rfl⟩ | ⟨signed, m, positive, rfl⟩
  · refine iff_of_true (stays_positive narrow contains) ?_
    rintro ⟨signed, least, _⟩
    rw [IntType.min_signed signed] at least
    have power : 0 < 2 ^ (T.bits - 1) := Nat.pow_pos (by decide)
    omega
  · have small := (IntType.contains_negative signed m).mp contains
    have least := host.least_iff signed contains
    rw [stays_negative narrow signed positive contains, ne_eq, ← least, Host.Least, Overruns,
      IntType.max_signed signed, IntType.min_signed signed]
    by_cases lowest : m = 2 ^ (T.bits - 1)
    · have below : ((2 ^ (T.bits - 1) : Nat) - 1 : Int).toNat = 2 ^ (T.bits - 1) - 1 := by omega
      rw [below, lowest, stored_power_iff radix (by omega)]
      simp only [signed, true_and]
      cases host.wraps <;> simp
      tauto
    · have fewer : storedDigits radix m ≤ storedDigits radix ((2 ^ (T.bits - 1) : Nat) - 1 : Int).toNat :=
        storedDigits_mono radix (Nat.le_length_digits_le radix.base _ _ (by omega))
      refine iff_of_true ⟨.inr fun undefined => lowest ?_, fewer⟩ fun overruns => lowest ?_
      · omega
      · omega

theorem stays_least_byte : Stays Host.wide decimal IntType.int8 (-128) 4 := by
  refine (stays_iff Host.wide decimal IntType.int8 (-128) (by decide) 4 (by decide +kernel)).mpr ?_
  rintro ⟨_, _, ⟨k, power⟩ | ⟨small, _⟩⟩
  · exact ten_pow_ne k (by decide) power
  · exact absurd small (by decide)

def binary : Radix := ⟨2, by decide, by decide⟩

/-- A sign and eight digits go into a buffer of eight. -/
theorem least_byte_overruns : IntToStr.bufSize binary IntType.int8 = 8 ∧
    ∃ writer, IntToStr.call Host.wide binary IntType.int8 (-128) 0 = some writer ∧
      ∀ mem, writer.touched mem = 9 := by
  refine ⟨by decide +kernel, (Writer.put (ch '-')).seq (uintToStr binary 128 0), ?_, fun mem => ?_⟩
  · exact IntToStr.call_negative Host.wide binary 0 rfl (by decide) (by decide)
  · have digits : (blockDigits binary.base (multiIntSupport binary.base) 128).length = 8 := by decide +kernel
    rw [((Emits.put (ch '-')).seq (uintToStr_emits binary 128 0)).touched mem, digits]
    decide

end Stdplus.Numeric
