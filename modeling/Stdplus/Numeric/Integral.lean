import Stdplus.Numeric.Decode

/-! The integral types: `IntToStr` and `StrToInt` for each of them, by way of the
pointer-sized type they do their work in. -/

namespace Stdplus.Numeric

open Stdplus.Base

structure IntType where
  bits : Nat
  isSigned : Bool
  sized : bits = 8 ∨ bits = 16 ∨ bits = 32 ∨ bits = 64

namespace IntType

def int8 : IntType := { bits := 8, isSigned := true, sized := by decide }
def int64 : IntType := { bits := 64, isSigned := true, sized := by decide }

/-- `std::numeric_limits<T>::max()`. -/
def max (T : IntType) : Int := if T.isSigned then 2 ^ (T.bits - 1) - 1 else 2 ^ T.bits - 1

/-- `std::numeric_limits<T>::min()`. -/
def min (T : IntType) : Int := if T.isSigned then -2 ^ (T.bits - 1) else 0

def Contains (T : IntType) (v : Int) : Prop := T.min ≤ v ∧ v ≤ T.max

instance (T : IntType) (v : Int) : Decidable (T.Contains v) := inferInstanceAs (Decidable (_ ∧ _))

/-- A conversion to the type keeps the low bits. -/
def cast (T : IntType) (v : Int) : Int := if T.isSigned then v.bmod (2 ^ T.bits) else v % 2 ^ T.bits

/-- A conversion to `std::make_unsigned_t<T>`. -/
def toUnsigned (T : IntType) (v : Int) : Nat := (v % 2 ^ T.bits).toNat

end IntType

/-- The size of a pointer; and whether the machine gives the least value back when that is
negated, which the language leaves undefined. -/
structure Host where
  ptrBits : Nat
  sized : ptrBits = 32 ∨ ptrBits = 64
  wraps : Bool

namespace Host

/-- The usual machine. -/
def wide : Host := { ptrBits := 64, sized := by decide, wraps := true }

/-- `ptr_t`, or `T` where that is larger. -/
def work (host : Host) (T : IntType) : IntType :=
  if T.bits ≤ host.ptrBits then
    { bits := host.ptrBits, isSigned := T.isSigned, sized := by have := host.sized; omega }
  else
    T

/-- `-v`; `none` where nothing is known of the program any more. -/
def negate (host : Host) (T : IntType) (v : Int) : Option Int :=
  if v = T.min then (if host.wraps then some v else none) else some (-v)

end Host

def intToStr (host : Host) (radix : Radix) (T : IntType) (v : Int) (minWidth : Nat) : Option (Writer CharT) :=
  if T.isSigned ∧ v < 0 then
    (host.negate T v).map fun v => (Writer.put (ch '-')).seq (uintToStr radix (T.toUnsigned v) minWidth)
  else
    some (uintToStr radix (T.toUnsigned v) minWidth)

def IntToStr.bufSize (radix : Radix) (T : IntType) : Nat := intToStrBufSize radix T.max.toNat T.isSigned

def IntToStr.call (host : Host) (radix : Radix) (T : IntType) (v : Int) (minWidth : Nat) : Option (Writer CharT) :=
  intToStr host radix (host.work T) v minWidth

/-- `ToStr` of an integer. -/
def ToStr.call (host : Host) (T : IntType) (v : Int) : Option (Writer CharT) := IntToStr.call host decimal T v 0

def strToInt (radix : Option Radix) (T : IntType) (str : List CharT) : Except Fault Int :=
  if ¬ T.isSigned then do
    let ret ← strToUInt0 radix T.bits str
    .ok ret
  else do
    let isNeg := [ch '-'].isPrefixOf str
    let ret ← strToUInt0 radix T.bits (str.drop isNeg.toNat)
    if T.max < ret then
      .error (.overflowError "Integer Decode Overflow")
    else
      .ok (if isNeg then -ret else ret)

/-- The result is checked against the greatest value only. -/
def StrToInt.call (host : Host) (radix : Option Radix) (T : IntType) (str : List CharT) : Except Fault Int := do
  let ret ← strToInt radix (host.work T) str
  if T.max < ret then .error (.overflowError "Integer Decode") else .ok (T.cast ret)

/-- `FromStr` of an integer. -/
def FromStr.call (host : Host) (T : IntType) (str : List CharT) : Except Fault Int := StrToInt.call host none T str

namespace IntType

theorem bits_wide (T : IntType) : 8 ≤ T.bits := by
  have sized := T.sized
  omega

theorem max_signed {T : IntType} (signed : T.isSigned) : T.max = (2 ^ (T.bits - 1) : Nat) - 1 := by
  rw [max, if_pos signed]
  norm_cast

theorem min_signed {T : IntType} (signed : T.isSigned) : T.min = -(2 ^ (T.bits - 1) : Nat) := by
  rw [min, if_pos signed]
  norm_cast

theorem contains_positive {T : IntType} (signed : T.isSigned) (m : Nat) : T.Contains m ↔ m < 2 ^ (T.bits - 1) := by
  rw [Contains, max_signed signed, min_signed signed]
  omega

theorem contains_negative {T : IntType} (signed : T.isSigned) (m : Nat) :
    T.Contains (-m) ↔ m ≤ 2 ^ (T.bits - 1) := by
  have positive : 0 < 2 ^ (T.bits - 1) := Nat.pow_pos (by decide)
  rw [Contains, max_signed signed, min_signed signed]
  omega

theorem contains_unsigned {T : IntType} (unsigned : T.isSigned = false) (m : Nat) :
    T.Contains m ↔ m < 2 ^ T.bits := by
  have power : (2 : Int) ^ T.bits = (2 ^ T.bits : Nat) := by norm_cast
  simp only [Contains, min, max, unsigned, Bool.false_eq_true, if_false, power]
  omega

theorem Contains.lt {T : IntType} {m : Nat} (contains : T.Contains m) : m < 2 ^ T.bits := by
  by_cases signed : T.isSigned
  · have small := (contains_positive signed m).mp contains
    exact Nat.lt_of_lt_of_le small (Nat.pow_le_pow_right (by decide) (Nat.sub_le _ _))
  · exact (contains_unsigned (Bool.eq_false_of_not_eq_true signed) m).mp contains

theorem Contains.sign {T : IntType} {v : Int} (contains : T.Contains v) :
    (∃ m : Nat, v = m) ∨ (T.isSigned ∧ ∃ m : Nat, 0 < m ∧ v = -m) := by
  by_cases nonnegative : 0 ≤ v
  · exact .inl ⟨v.toNat, by omega⟩
  · refine .inr ⟨?_, v.natAbs, by omega, by omega⟩
    by_contra unsigned
    have low := contains.1
    rw [min, if_neg unsigned] at low
    exact nonnegative low

theorem cast_of_contains {T : IntType} {v : Int} (contains : T.Contains v) : T.cast v = v := by
  obtain ⟨low, high⟩ := contains
  have sized := T.sized
  have double : (2 : Int) ^ T.bits = 2 * 2 ^ (T.bits - 1) := by
    rw [← pow_succ']
    congr 1
    omega
  unfold cast min max at *
  split at low
  · rename_i signed
    rw [if_pos signed] at high ⊢
    apply Int.bmod_eq_of_le <;> push_cast <;> omega
  · rename_i unsigned
    rw [if_neg unsigned] at high ⊢
    exact Int.emod_eq_of_lt low (by omega)

end IntType

theorem Host.work_signed (host : Host) {T : IntType} (signed : T.isSigned) : (host.work T).isSigned := by
  unfold work
  split <;> exact signed

theorem Host.bits_le_work (host : Host) (T : IntType) : T.bits ≤ (host.work T).bits := by
  unfold work
  split
  · assumption
  · exact Nat.le_refl _

/-- Where pointers have 64 bits, an unsigned type is read in a `uintptr_t`. -/
theorem StrToInt.call_unsigned (host : Host) (pointers : host.ptrBits = 64) {T : IntType}
    (unsigned : T.isSigned = false) (radix : Option Radix) (str : List CharT) :
    StrToInt.call host radix T str = (strToIntUnsigned radix T.bits str).map Int.ofNat := by
  have sized := T.sized
  have bits : (host.work T).bits = 64 := by
    rw [Host.work, if_pos (by omega)]
    exact pointers
  have worked : (host.work T).isSigned = false := by
    rw [Host.work, if_pos (by omega), unsigned]
  have positive : 0 < 2 ^ T.bits := Nat.pow_pos (by decide)
  rw [call, strToInt, worked, if_pos Bool.false_ne_true, bits, strToIntUnsigned]
  cases strToUInt0 radix 64 str with
  | error fault => rfl
  | ok ret =>
    have greatest : T.max < (ret : Int) ↔ 2 ^ T.bits - 1 < ret := by
      have contains := IntType.contains_unsigned unsigned ret
      rw [IntType.Contains, IntType.min, if_neg (by simp [unsigned])] at contains
      omega
    simp only [bind, Except.bind, greatest]
    by_cases beyond : 2 ^ T.bits - 1 < ret
    · rw [if_pos beyond, if_pos beyond]
      rfl
    · have contains := (IntType.contains_unsigned unsigned ret).mpr (by omega)
      rw [if_neg beyond, if_neg beyond, IntType.cast_of_contains contains]
      rfl

/-- The least value where the type is no smaller than a pointer: there is no room for its
negation. -/
def Host.Least (host : Host) (T : IntType) (v : Int) : Prop := T.isSigned ∧ host.ptrBits ≤ T.bits ∧ v = T.min

theorem Host.work_bits (host : Host) (T : IntType) : (host.work T).bits = Max.max T.bits host.ptrBits := by
  unfold work
  split
  · rename_i within
    exact (Nat.max_eq_right within).symm
  · rename_i beyond
    exact (Nat.max_eq_left (Nat.le_of_not_le beyond)).symm

theorem Host.least_iff (host : Host) {T : IntType} {v : Int} (signed : T.isSigned) (contains : T.Contains v) :
    host.Least T v ↔ v = (host.work T).min := by
  have low := contains.1
  have wide := T.bits_wide
  have size := host.work_bits T
  rw [Least, IntType.min_signed (host.work_signed signed)]
  rw [IntType.min_signed signed] at low ⊢
  by_cases room : host.ptrBits ≤ T.bits
  · rw [Nat.max_eq_left room] at size
    rw [size]
    exact ⟨fun least => least.2.2, fun value => ⟨signed, room, value⟩⟩
  · have power : 2 ^ (T.bits - 1) < 2 ^ ((host.work T).bits - 1) := Nat.pow_lt_pow_right (by decide) (by omega)
    constructor
    · exact fun least => absurd least.2.1 room
    · omega

section

variable (host : Host) (radix : Radix) {T : IntType} {m : Nat} (minWidth : Nat)

private theorem toUnsigned_work (below : m < 2 ^ T.bits) : (host.work T).toUnsigned m = m := by
  have wider := host.bits_le_work T
  have power : 2 ^ T.bits ≤ 2 ^ (host.work T).bits := Nat.pow_le_pow_right (by decide) wider
  have same : (m : Int) % 2 ^ (host.work T).bits = (m % 2 ^ (host.work T).bits : Nat) := by push_cast; rfl
  rw [IntType.toUnsigned, same, Int.toNat_natCast, Nat.mod_eq_of_lt (by omega)]

theorem IntToStr.call_positive (contains : T.Contains m) :
    IntToStr.call host radix T m minWidth = some (uintToStr radix m minWidth) := by
  rw [call, intToStr, if_neg (by omega), toUnsigned_work host contains.lt]

private theorem neg_emod_double (positive : 0 < m) : (-m : Int) % (2 * m : Nat) = m := by
  rw [← Int.add_emod_right]
  push_cast
  rw [Int.emod_eq_of_lt] <;> omega

/-- The sign goes first. The least value stays negative where it can be negated at all, and
its bits are those of its magnitude. -/
theorem IntToStr.call_negative (signed : T.isSigned) (positive : 0 < m) (contains : T.Contains (-m)) :
    IntToStr.call host radix T (-m) minWidth = if host.wraps ∨ -m ≠ (host.work T).min then
      some ((Writer.put (ch '-')).seq (uintToStr radix m minWidth)) else none := by
  have small := (IntType.contains_negative signed m).mp contains
  have wide := T.bits_wide
  have power : 2 ^ (T.bits - 1) < 2 ^ T.bits := Nat.pow_lt_pow_right (by decide) (by omega)
  rw [call, intToStr, if_pos ⟨host.work_signed signed, by omega⟩, Host.negate]
  by_cases least : -(m : Int) = (host.work T).min
  · rw [if_pos least]
    have bits : (host.work T).toUnsigned (-m) = m := by
      have wider := (host.work T).bits_wide
      have value := IntType.min_signed (host.work_signed signed)
      have double : 2 ^ (host.work T).bits = 2 * 2 ^ ((host.work T).bits - 1) := by
        rw [← pow_succ']
        congr 1
        omega
      have cast : (2 : Int) ^ (host.work T).bits = (2 ^ (host.work T).bits : Nat) := by norm_cast
      have magnitude : m = 2 ^ ((host.work T).bits - 1) := by omega
      rw [IntType.toUnsigned, cast, double, ← magnitude, neg_emod_double positive, Int.toNat_natCast]
    cases host.wraps with
    | false => simp [least]
    | true => simp [bits]
  · rw [if_neg least, if_pos (.inr least), Option.map_some, neg_neg, toUnsigned_work host (by omega)]

end

private theorem foldlM_strToUIntStep_overflow (radix : Radix) {bits : Nat} (wide : 8 ≤ bits) (text : List CharT)
    (digits : ∀ c ∈ text, IsDigit radix.base c) {ret : Nat} (fits : ret < 2 ^ bits)
    (large : 2 ^ bits ≤ text.foldl (numeralStep radix.base) ret) :
    text.foldlM (strToUIntStep radix bits) ret = .error (.overflowError "Integer Decode Overflow") := by
  induction text generalizing ret with
  | nil => exact absurd large (Nat.not_le.mpr fits)
  | cons c text ih =>
    obtain ⟨digit, value, small⟩ := digits c List.mem_cons_self
    rw [List.foldlM_cons, strToUIntStep_digit radix wide value small]
    by_cases below : numeralStep radix.base ret c < 2 ^ bits
    · rw [if_pos below]
      exact ih (fun other member => digits other (List.mem_cons_of_mem c member)) below large
    · rw [if_neg below]
      rfl

theorem strToUInt_numeral (radix : Radix) {bits : Nat} (wide : 8 ≤ bits) {text : List CharT}
    (numeral : IsNumeral radix.base text) : strToUInt radix bits text =
      if numeralValue radix.base text < 2 ^ bits then .ok (numeralValue radix.base text)
      else .error (.overflowError "Integer Decode Overflow") := by
  split
  · rename_i below
    exact (strToUInt_ok_iff radix bits wide text _).mpr ⟨numeral, rfl, below⟩
  · rename_i beyond
    rw [strToUInt, if_neg (by simpa using numeral.1)]
    exact foldlM_strToUIntStep_overflow radix wide text numeral.2 (Nat.pow_pos (by decide)) (Nat.le_of_not_lt beyond)

theorem strToUInt_other (radix : Radix) {bits : Nat} (wide : 8 ≤ bits) {text : List CharT} (ascii : Ascii text)
    (other : ¬ IsNumeral radix.base text) : ∃ fault, strToUInt radix bits text = .error fault ∧ fault.Thrown := by
  cases outcome : strToUInt radix bits text with
  | error fault => exact ⟨fault, rfl, strToUInt_thrown radix wide ascii outcome⟩
  | ok n => exact absurd ((strToUInt_ok_iff radix bits wide text n).mp outcome).1 other

/-- One or more digits of the base, and what they stand for; base 0 takes a `0x` in front
of hexadecimal ones. -/
def Written (radix : Option Radix) (text : List CharT) (m : Nat) : Prop :=
  match radix with
  | some radix => IsNumeral radix.base text ∧ numeralValue radix.base text = m
  | none =>
    (∃ digits, text = [ch '0', ch 'x'] ++ digits ∧ IsNumeral 16 digits ∧ numeralValue 16 digits = m) ∨
      (IsNumeral 10 text ∧ numeralValue 10 text = m)

def Denotes (radix : Option Radix) (text : List CharT) (n : Int) : Prop :=
  ∃ m : Nat, (Written radix text m ∧ n = m) ∨ ∃ digits, text = ch '-' :: digits ∧ Written radix digits m ∧ n = -m

private theorem not_decimal_prefixed (digits : List CharT) : ¬ IsNumeral 10 ([ch '0', ch 'x'] ++ digits) := by
  rintro ⟨_, all⟩
  obtain ⟨digit, value, small⟩ := all (ch 'x') (by simp)
  have letter : digitValue (ch 'x') = some 33 := by decide
  rw [letter, Option.some.injEq] at value
  omega

theorem Ascii.drop {text : List CharT} (ascii : Ascii text) (count : Nat) : Ascii (text.drop count) :=
  fun c member => ascii c (List.mem_of_mem_drop member)

theorem strToUInt0_written (radix : Option Radix) {bits : Nat} (wide : 8 ≤ bits) {text : List CharT} {m : Nat}
    (written : Written radix text m) : strToUInt0 radix bits text =
      if m < 2 ^ bits then .ok m else .error (.overflowError "Integer Decode Overflow") := by
  cases radix with
  | some radix =>
    obtain ⟨numeral, rfl⟩ := written
    exact strToUInt_numeral radix wide numeral
  | none =>
    rcases written with ⟨digits, rfl, numeral, rfl⟩ | ⟨numeral, rfl⟩
    · rw [strToUInt0, if_pos (by simp)]
      exact strToUInt_numeral hexadecimal wide numeral
    · rw [strToUInt0, if_neg]
      · exact strToUInt_numeral decimal wide numeral
      · intro starts
        obtain ⟨digits, rfl⟩ := List.isPrefixOf_iff_prefix.mp starts
        exact not_decimal_prefixed digits numeral

theorem strToUInt0_other (radix : Option Radix) {bits : Nat} (wide : 8 ≤ bits) {text : List CharT}
    (ascii : Ascii text) (other : ¬ ∃ m, Written radix text m) :
    ∃ fault, strToUInt0 radix bits text = .error fault ∧ fault.Thrown := by
  cases radix with
  | some radix =>
    exact strToUInt_other radix wide ascii fun numeral => other ⟨_, numeral, rfl⟩
  | none =>
    rw [strToUInt0]
    split
    · rename_i starts
      obtain ⟨digits, rfl⟩ := List.isPrefixOf_iff_prefix.mp starts
      refine strToUInt_other hexadecimal wide (ascii.drop 2) fun numeral => other ⟨_, .inl ⟨digits, rfl, ?_, rfl⟩⟩
      exact numeral
    · exact strToUInt_other decimal wide ascii fun numeral => other ⟨_, .inr ⟨numeral, rfl⟩⟩

theorem Written.unsigned {radix : Option Radix} {text : List CharT} {m : Nat} (written : Written radix text m) :
    [ch '-'].isPrefixOf text = false := by
  have digit (base : Nat) (digits : List CharT) (numeral : IsNumeral base digits) :
      [ch '-'].isPrefixOf digits = false := by
    rw [Bool.eq_false_iff]
    intro starts
    obtain ⟨rest, rfl⟩ := List.isPrefixOf_iff_prefix.mp starts
    exact numeral.not_mem (c := ch '-') (by decide) (by simp)
  cases radix with
  | some radix => exact digit radix.base text written.1
  | none =>
    rcases written with ⟨digits, rfl, _, _⟩ | ⟨numeral, _⟩
    · rfl
    · exact digit 10 text numeral

end Stdplus.Numeric
