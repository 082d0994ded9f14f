import Stdplus.Numeric.Encode

/-! Text to integer: `StrToInt` over `strToUInt`, with the character table, the
checks before every multiplication and the final range check. Arithmetic is
taken modulo the size of the type, as the source computes it. -/

namespace Stdplus.Numeric

open Stdplus.Base

/-- How a parser fails to return. -/
inductive Fault where
  | invalidArgument (what : String)
  | overflowError (what : String)
  /-- Not an exception: the source would index outside of an array. -/
  | outOfBounds
deriving DecidableEq

/-- The fault is one of the two exceptions the parsers document. -/
def Fault.Thrown : Fault → Prop
  | .invalidArgument _ | .overflowError _ => True
  | .outOfBounds => False

/-- A `char` used as an index: it is signed, and its sign is extended. -/
def charIndex (c : CharT) : Int := if c.toNat < 128 then c.toNat else (c.toNat : Int) - 256

/-- The 256 entries of `charTable`; there is none outside. -/
def charTable (index : Int) : Option Int :=
  if 0 ≤ index ∧ index < 256 then
    some (if 48 ≤ index ∧ index < 58 then index - 48
      else if 65 ≤ index ∧ index < 91 then index - 65 + 10
      else if 97 ≤ index ∧ index < 123 then index - 97 + 10
      else -1)
  else none

/-- One turn of the loop of `strToUInt` in an unsigned type of `bits` bits. -/
def strToUIntStep (radix : Radix) (bits ret : Nat) (c : CharT) : Except Fault Nat :=
  let max := 2 ^ bits - 1
  match charTable (charIndex c) with
  | none => .error .outOfBounds
  | some v =>
    if v < 0 ∨ radix.base ≤ v then
      .error (.invalidArgument "Invalid numeral")
    else if popcount radix.base = 1 then
      let shift := countrZero radix.base
      if max >>> shift < ret then
        .error (.overflowError "Integer Decode Overflow")
      else
        .ok ((ret <<< shift ||| v.toNat) % 2 ^ bits)
    else if max / radix.base < ret then
      .error (.overflowError "Integer Decode Overflow")
    else
      let ret := ret * radix.base % 2 ^ bits
      if max - v.toNat < ret then
        .error (.overflowError "Integer Decode Overflow")
      else
        .ok ((ret + v.toNat) % 2 ^ bits)

def strToUInt (radix : Radix) (bits : Nat) (str : List CharT) : Except Fault Nat :=
  if str.isEmpty then .error (.invalidArgument "Empty Str")
  else str.foldlM (strToUIntStep radix bits) 0

/-- Base 0, here `none`, reads the base off a `0x` prefix. -/
def strToUInt0 (radix : Option Radix) (bits : Nat) (str : List CharT) : Except Fault Nat :=
  match radix with
  | some radix => strToUInt radix bits str
  | none =>
    if [ch '0', ch 'x'].isPrefixOf str then strToUInt hexadecimal bits (str.drop 2)
    else strToUInt decimal bits str

/-- `StrToInt` for an unsigned type of `bits` bits, decoded in a `uintptr_t`; pointers have 64 bits. -/
def strToIntUnsigned (radix : Option Radix) (bits : Nat) (str : List CharT) : Except Fault Nat := do
  let ret ← strToUInt0 radix 64 str
  if 2 ^ bits - 1 < ret then .error (.overflowError "Integer Decode") else .ok ret

def digitValue (c : CharT) : Option Nat :=
  if ch '0' ≤ c ∧ c ≤ ch '9' then some (c - ch '0').toNat
  else if ch 'A' ≤ c ∧ c ≤ ch 'Z' then some ((c - ch 'A').toNat + 10)
  else if ch 'a' ≤ c ∧ c ≤ ch 'z' then some ((c - ch 'a').toNat + 10)
  else none

def IsDigit (base : Nat) (c : CharT) : Prop := ∃ digit, digitValue c = some digit ∧ digit < base

/-- A nonempty string of digits of the base. -/
def IsNumeral (base : Nat) (text : List CharT) : Prop := text ≠ [] ∧ ∀ c ∈ text, IsDigit base c

instance (base : Nat) (c : CharT) : Decidable (IsDigit base c) :=
  decidable_of_iff ((digitValue c).any (· < base)) (by simp [IsDigit, Option.any_eq_true])

instance (base : Nat) (text : List CharT) : Decidable (IsNumeral base text) :=
  inferInstanceAs (Decidable (_ ∧ _))

def numeralStep (base acc : Nat) (c : CharT) : Nat := base * acc + (digitValue c).getD 0

def numeralValue (base : Nat) (text : List CharT) : Nat := text.foldl (numeralStep base) 0

def Ascii (text : List CharT) : Prop := ∀ c ∈ text, c.toNat < 128

instance (text : List CharT) : Decidable (Ascii text) :=
  inferInstanceAs (Decidable (∀ c ∈ text, c.toNat < 128))

theorem IsNumeral.not_mem {base : Nat} {text : List CharT} (numeral : IsNumeral base text) {c : CharT}
    (other : digitValue c = none) : c ∉ text := by
  intro member
  obtain ⟨digit, value, _⟩ := numeral.2 c member
  rw [other] at value
  cases value

private theorem charTable_digit : ∀ n, n < 256 →
    charTable (charIndex (UInt8.ofNat n)) =
      if n < 128 then some (((digitValue (UInt8.ofNat n)).map Int.ofNat).getD (-1)) else none := by
  decide +kernel

private theorem digitValue_ascii : ∀ n, n < 256 → 128 ≤ n → digitValue (UInt8.ofNat n) = none := by
  decide +kernel

theorem charTable_eq (c : CharT) : charTable (charIndex c) =
    if c.toNat < 128 then some (((digitValue c).map Int.ofNat).getD (-1)) else none := by
  have entry := charTable_digit c.toNat c.toNat_lt
  rwa [UInt8.ofNat_toNat] at entry

private theorem digit_ascii {c : CharT} {digit : Nat} (value : digitValue c = some digit) :
    c.toNat < 128 := by
  by_contra high
  have none := digitValue_ascii c.toNat c.toNat_lt (by omega)
  rw [UInt8.ofNat_toNat, value] at none
  cases none

theorem countrZero_base : ∀ base, base < 37 → 1 < base → popcount base = 1 →
    base = 2 ^ countrZero base ∧ countrZero base ≤ 8 := by
  decide +kernel

theorem append_digit_lt {base value digit limit : Nat} (small : digit < base)
    (divides : base ∣ limit) (below : value * base < limit) : value * base + digit < limit := by
  obtain ⟨count, rfl⟩ := divides
  have fewer : value < count := by
    rw [Nat.mul_comm base count] at below
    exact Nat.lt_of_mul_lt_mul_right below
  calc value * base + digit < value * base + base := by omega
    _ = (value + 1) * base := by ring
    _ ≤ count * base := Nat.mul_le_mul_right base fewer
    _ = base * count := Nat.mul_comm count base

/-- On a digit the step multiplies and adds, or says that the result does not fit. -/
theorem strToUIntStep_digit (radix : Radix) {bits ret digit : Nat} {c : CharT} (wide : 8 ≤ bits)
    (value : digitValue c = some digit) (small : digit < radix.base) :
    strToUIntStep radix bits ret c =
      if numeralStep radix.base ret c < 2 ^ bits then .ok (numeralStep radix.base ret c)
      else .error (.overflowError "Integer Decode Overflow") := by
  have fits : 0 < 2 ^ bits := Nat.pow_pos (by decide)
  have base_fits : radix.base < 2 ^ bits := by
    have limit := radix.bounded
    have power : 2 ^ 8 ≤ 2 ^ bits := Nat.pow_le_pow_right (by decide) wide
    simp only [maxBase] at limit
    omega
  have in_range : ¬ ((Int.ofNat digit : Int) < 0 ∨ (radix.base : Int) ≤ Int.ofNat digit) := by
    simp only [Int.ofNat_eq_natCast]
    omega
  have large := radix.large
  simp only [strToUIntStep, charTable_eq, digit_ascii value, value, if_true, Option.map_some,
    Option.getD_some, if_neg in_range, numeralStep, Nat.mul_comm radix.base ret]
  simp only [Int.ofNat_eq_natCast, Int.toNat_natCast]
  split
  · rename_i single
    obtain ⟨power, shift⟩ := countrZero_base radix.base (Nat.lt_succ_of_le radix.bounded) large single
    have below_shift : digit < 2 ^ countrZero radix.base := power ▸ small
    have divides : radix.base ∣ 2 ^ bits := by
      rw [power]
      exact Nat.pow_dvd_pow 2 (by omega)
    rw [Nat.shiftRight_eq_div_pow, ← power, ← Nat.shiftLeft_add_eq_or_of_lt below_shift,
      Nat.shiftLeft_eq, ← power]
    have room : (2 ^ bits - 1) / radix.base < ret ↔ ¬ ret * radix.base + digit < 2 ^ bits := by
      rw [← Nat.not_le, Nat.le_div_iff_mul_le (by omega), not_iff_not]
      constructor
      · intro below
        exact append_digit_lt small divides (by omega)
      · omega
    by_cases below : ret * radix.base + digit < 2 ^ bits
    · rw [if_neg (fun beyond => room.mp beyond below), if_pos below, Nat.mod_eq_of_lt below]
    · rw [if_pos (room.mpr below), if_neg below]
  · have room : (2 ^ bits - 1) / radix.base < ret ↔ ¬ ret * radix.base ≤ 2 ^ bits - 1 := by
      rw [← Nat.not_le, Nat.le_div_iff_mul_le (by omega)]
    by_cases below : ret * radix.base + digit < 2 ^ bits
    · rw [if_neg (fun beyond => room.mp beyond (by omega)), if_pos below,
        Nat.mod_eq_of_lt (by omega), if_neg (by omega), Nat.mod_eq_of_lt below]
    · rw [if_neg below]
      split
      · rfl
      · rename_i stays
        have below : ret * radix.base ≤ 2 ^ bits - 1 := not_not.mp (fun beyond => stays (room.mpr beyond))
        rw [Nat.mod_eq_of_lt (by omega), if_pos (by omega)]

/-- On anything but a digit the step throws, as long as the table covers the character. -/
theorem strToUIntStep_other (radix : Radix) (bits ret : Nat) {c : CharT}
    (other : ¬ IsDigit radix.base c) :
    strToUIntStep radix bits ret c =
      .error (if c.toNat < 128 then .invalidArgument "Invalid numeral" else .outOfBounds) := by
  simp only [strToUIntStep, charTable_eq]
  by_cases low : c.toNat < 128
  · simp only [if_pos low]
    rw [if_pos]
    cases value : digitValue c with
    | none => simp
    | some digit =>
      have beyond : ¬ digit < radix.base := fun small => other ⟨digit, value, small⟩
      simp only [Option.map_some, Option.getD_some, Int.ofNat_eq_natCast]
      omega
  · simp only [if_neg low]

theorem numeralStep_grows {base : Nat} (positive : 0 < base) (text : List CharT) (acc : Nat) :
    acc ≤ text.foldl (numeralStep base) acc := by
  induction text generalizing acc with
  | nil => exact Nat.le_refl _
  | cons c text ih =>
    have grown : acc ≤ numeralStep base acc c :=
      Nat.le_trans (Nat.le_mul_of_pos_left acc positive) (Nat.le_add_right _ _)
    exact Nat.le_trans grown (ih _)

/-- The loop accepts exactly the digits whose value, appended to what was read
before, still fits; an overflow on the way never comes back into range. -/
theorem foldlM_strToUIntStep (radix : Radix) {bits : Nat} (wide : 8 ≤ bits) (text : List CharT)
    {ret : Nat} (fits : ret < 2 ^ bits) (n : Nat) :
    text.foldlM (strToUIntStep radix bits) ret = .ok n ↔
      (∀ c ∈ text, IsDigit radix.base c) ∧ text.foldl (numeralStep radix.base) ret = n ∧
        n < 2 ^ bits := by
  have large := radix.large
  induction text generalizing ret with
  | nil =>
    simp only [List.foldlM_nil, List.foldl_nil, pure, Except.pure, Except.ok.injEq]
    constructor
    · rintro rfl
      exact ⟨by simp, rfl, fits⟩
    · exact fun parts => parts.2.1
  | cons c text ih =>
    rw [List.foldlM_cons, List.foldl_cons]
    by_cases digit : IsDigit radix.base c
    · obtain ⟨value, valued, small⟩ := digit
      rw [strToUIntStep_digit radix wide valued small]
      by_cases below : numeralStep radix.base ret c < 2 ^ bits
      · simp only [if_pos below, bind, Except.bind, ih below, List.mem_cons, forall_eq_or_imp]
        exact ⟨fun parts => ⟨⟨⟨value, valued, small⟩, parts.1⟩, parts.2⟩,
          fun parts => ⟨parts.1.2, parts.2⟩⟩
      · simp only [if_neg below, bind, Except.bind, reduceCtorEq, false_iff, not_and, not_lt]
        rintro - rfl
        exact Nat.le_trans (Nat.le_of_not_lt below) (numeralStep_grows (by omega) _ _)
    · rw [strToUIntStep_other radix bits ret digit]
      simp only [bind, Except.bind, reduceCtorEq, false_iff, not_and]
      intro digits
      exact absurd (digits c (by simp)) digit

theorem foldlM_strToUIntStep_thrown (radix : Radix) {bits : Nat} (wide : 8 ≤ bits)
    {text : List CharT} (ascii : Ascii text) {ret : Nat} {fault : Fault}
    (failed : text.foldlM (strToUIntStep radix bits) ret = .error fault) : fault.Thrown := by
  induction text generalizing ret with
  | nil => simp [pure, Except.pure] at failed
  | cons c text ih =>
    rw [List.foldlM_cons] at failed
    by_cases digit : IsDigit radix.base c
    · obtain ⟨value, valued, small⟩ := digit
      rw [strToUIntStep_digit radix wide valued small] at failed
      split at failed
      · exact ih (fun other member => ascii other (List.mem_cons_of_mem c member)) failed
      · cases failed
        trivial
    · rw [strToUIntStep_other radix bits ret digit, if_pos (ascii c (by simp))] at failed
      cases failed
      trivial

theorem strToUInt_ok_iff (radix : Radix) (bits : Nat) (wide : 8 ≤ bits) (text : List CharT) (n : Nat) :
    strToUInt radix bits text = .ok n ↔
      IsNumeral radix.base text ∧ numeralValue radix.base text = n ∧ n < 2 ^ bits := by
  unfold strToUInt IsNumeral
  cases text with
  | nil => simp
  | cons c text =>
    simp only [List.isEmpty_cons, Bool.false_eq_true, if_false]
    rw [foldlM_strToUIntStep radix wide (c :: text) (Nat.pow_pos (by decide)) n]
    simp [numeralValue]

theorem strToUInt_thrown (radix : Radix) {bits : Nat} (wide : 8 ≤ bits) {text : List CharT}
    (ascii : Ascii text) {fault : Fault} (failed : strToUInt radix bits text = .error fault) :
    fault.Thrown := by
  unfold strToUInt at failed
  split at failed
  · cases failed
    trivial
  · exact foldlM_strToUIntStep_thrown radix wide ascii failed

/-- A value is accepted exactly when it is written in digits of the base and fits
the type, whatever the number of leading zeros. -/
theorem strToIntUnsigned_ok_iff (radix : Radix) {bits : Nat} (narrow : bits ≤ 64) (text : List CharT)
    (n : Nat) :
    strToIntUnsigned (some radix) bits text = .ok n ↔
      IsNumeral radix.base text ∧ numeralValue radix.base text = n ∧ n < 2 ^ bits := by
  have power : 2 ^ bits ≤ 2 ^ 64 := Nat.pow_le_pow_right (by decide) narrow
  have positive : 0 < 2 ^ bits := Nat.pow_pos (by decide)
  have decoded := strToUInt_ok_iff radix 64 (by decide) text
  simp only [strToIntUnsigned, strToUInt0]
  cases outcome : strToUInt radix 64 text with
  | error fault =>
    simp only [bind, Except.bind, reduceCtorEq, false_iff]
    rintro ⟨numeral, value, below⟩
    have accepted := (decoded n).mpr ⟨numeral, value, by omega⟩
    rw [outcome] at accepted
    cases accepted
  | ok ret =>
    obtain ⟨numeral, value, below⟩ := (decoded ret).mp outcome
    simp only [bind, Except.bind]
    split
    · simp only [reduceCtorEq, false_iff]
      rintro ⟨-, other, fits⟩
      omega
    · simp only [Except.ok.injEq]
      constructor
      · rintro rfl
        exact ⟨numeral, value, by omega⟩
      · exact fun parts => value.symm.trans parts.2.1

theorem strToIntUnsigned_thrown (radix : Radix) {bits : Nat} {text : List CharT} (ascii : Ascii text)
    {fault : Fault} (failed : strToIntUnsigned (some radix) bits text = .error fault) :
    fault.Thrown := by
  simp only [strToIntUnsigned, strToUInt0] at failed
  cases outcome : strToUInt radix 64 text with
  | error other =>
    rw [outcome] at failed
    cases failed
    exact strToUInt_thrown radix (by decide) ascii outcome
  | ok ret =>
    simp only [outcome, bind, Except.bind] at failed
    split at failed
    · cases failed
      trivial
    · cases failed

private theorem digitValue_table : ∀ digit, digit < maxBase →
    digitValue (singleIntTable digit) = some digit := by
  decide +kernel

theorem numeral_isNumeral (radix : Radix) (v minWidth : Nat) :
    IsNumeral radix.base (numeral radix v minWidth) := by
  have limit := radix.bounded
  constructor
  · apply List.ne_nil_of_length_pos
    rw [numeral, List.length_reverse, List.length_map, paddedDigits_length]
    omega
  · intro c member
    obtain ⟨digit, present, rfl⟩ := List.mem_map.mp (List.mem_reverse.mp member)
    have small := mem_paddedDigits_lt radix.large present
    exact ⟨digit, digitValue_table digit (by omega), small⟩

theorem numeralValue_numeral (radix : Radix) (v minWidth : Nat) :
    numeralValue radix.base (numeral radix v minWidth) = v := by
  have limit := radix.bounded
  have fold (digits : List Nat) (small : ∀ digit ∈ digits, digit < radix.base) :
      (digits.map singleIntTable).foldr (fun c acc => numeralStep radix.base acc c) 0 =
        Nat.ofDigits radix.base digits := by
    induction digits with
    | nil => rfl
    | cons digit digits ih =>
      have first := small digit (by simp)
      rw [List.map_cons, List.foldr_cons, ih (fun other member => small other (by simp [member])),
        Nat.ofDigits_cons, numeralStep, digitValue_table digit (by omega)]
      exact Nat.add_comm _ _
  rw [numeralValue, numeral, List.foldl_reverse, fold _ (fun _ => mem_paddedDigits_lt radix.large),
    ofDigits_paddedDigits]

end Stdplus.Numeric
