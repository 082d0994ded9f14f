import Stdplus.Numeric.Decode

namespace Stdplus.Numeric

open Stdplus.Base

/-- The first character that is no digit, behind digits that stay below the limit when they
are appended to what was read before. -/
def StopsFrom (base limit acc : Nat) (text : List CharT) (c : CharT) : Prop :=
  ∃ digits rest, text = digits ++ c :: rest ∧ (∀ d ∈ digits, IsDigit base d) ∧ ¬ IsDigit base c ∧
    digits.foldl (numeralStep base) acc < limit

abbrev Stops (base limit : Nat) (text : List CharT) (c : CharT) : Prop := StopsFrom base limit 0 text c

/-- What the decoder makes of a character that is no digit: the table has no entry for the
negative ones. -/
def stopFault (c : CharT) : Fault := if c.toNat < 128 then .invalidArgument "Invalid numeral" else .outOfBounds

theorem stopFault_outOfBounds {c : CharT} : .outOfBounds = stopFault c ↔ 128 ≤ c.toNat := by
  unfold stopFault
  split <;> simp <;> omega

theorem stopFault_invalidArgument {c : CharT} {what : String} :
    .invalidArgument what = stopFault c ↔ what = "Invalid numeral" ∧ c.toNat < 128 := by
  unfold stopFault
  split <;> simp <;> omega

variable {base limit acc : Nat} {text : List CharT} {c : CharT}

theorem not_stopsFrom_nil : ¬ StopsFrom base limit acc [] c := by
  rintro ⟨digits, rest, split, _⟩
  simp at split

theorem stopsFrom_digit {first : CharT} (digit : IsDigit base first) :
    StopsFrom base limit acc (first :: text) c ↔ StopsFrom base limit (numeralStep base acc first) text c := by
  constructor
  · rintro ⟨digits, rest, split, valid, other, below⟩
    cases digits with
    | nil =>
      simp only [List.nil_append, List.cons.injEq] at split
      exact absurd (split.1 ▸ digit) other
    | cons head digits =>
      simp only [List.cons_append, List.cons.injEq] at split
      obtain ⟨rfl, rfl⟩ := split
      exact ⟨digits, rest, rfl, fun d member => valid d (List.mem_cons_of_mem _ member), other, below⟩
  · rintro ⟨digits, rest, rfl, valid, other, below⟩
    exact ⟨first :: digits, rest, rfl, List.forall_mem_cons.mpr ⟨digit, valid⟩, other, below⟩

theorem stopsFrom_other {first : CharT} (none : ¬ IsDigit base first) :
    StopsFrom base limit acc (first :: text) c ↔ c = first ∧ acc < limit := by
  constructor
  · rintro ⟨digits, rest, split, valid, other, below⟩
    cases digits with
    | nil =>
      simp only [List.nil_append, List.cons.injEq] at split
      exact ⟨split.1.symm, below⟩
    | cons head digits =>
      simp only [List.cons_append, List.cons.injEq] at split
      exact absurd (split.1 ▸ valid head List.mem_cons_self) none
  · rintro ⟨rfl, below⟩
    exact ⟨[], text, rfl, by simp, none, below⟩

theorem StopsFrom.below (positive : 0 < base) (stops : StopsFrom base limit acc text c) : acc < limit := by
  obtain ⟨digits, rest, _, _, _, below⟩ := stops
  exact Nat.lt_of_le_of_lt (numeralStep_grows positive digits acc) below

theorem foldlM_strToUIntStep_stops (radix : Radix) {bits : Nat} (wide : 8 ≤ bits) (text : List CharT) {ret : Nat}
    (fits : ret < 2 ^ bits) {fault : Fault} (other : ∀ what, fault ≠ .overflowError what) :
    text.foldlM (strToUIntStep radix bits) ret = .error fault ↔
      ∃ c, StopsFrom radix.base (2 ^ bits) ret text c ∧ fault = stopFault c := by
  have large := radix.large
  induction text generalizing ret with
  | nil =>
    refine iff_of_false (by simp [pure, Except.pure]) ?_
    rintro ⟨c, stops, _⟩
    exact not_stopsFrom_nil stops
  | cons first text ih =>
    rw [List.foldlM_cons]
    by_cases digit : IsDigit radix.base first
    · obtain ⟨value, valued, small⟩ := digit
      rw [strToUIntStep_digit radix wide valued small]
      by_cases below : numeralStep radix.base ret first < 2 ^ bits
      · rw [if_pos below]
        refine (ih below).trans ?_
        simp only [stopsFrom_digit (show IsDigit radix.base first from ⟨value, valued, small⟩)]
      · rw [if_neg below]
        refine iff_of_false ?_ ?_
        · intro failed
          exact other _ (Except.error.inj failed).symm
        · rintro ⟨c, stops, _⟩
          rw [stopsFrom_digit ⟨value, valued, small⟩] at stops
          exact below (stops.below (by omega))
    · rw [strToUIntStep_other radix bits ret digit]
      change Except.error (stopFault first) = .error fault ↔ _
      rw [Except.error.injEq]
      constructor
      · rintro rfl
        exact ⟨first, (stopsFrom_other digit).mpr ⟨rfl, fits⟩, rfl⟩
      · rintro ⟨c, stops, rfl⟩
        obtain ⟨rfl, _⟩ := (stopsFrom_other digit).mp stops
        rfl

theorem strToUInt_stops (radix : Radix) {bits : Nat} (wide : 8 ≤ bits) (text : List CharT) {fault : Fault}
    (other : ∀ what, fault ≠ .overflowError what) : strToUInt radix bits text = .error fault ↔
      text = [] ∧ fault = .invalidArgument "Empty Str" ∨
        ∃ c, Stops radix.base (2 ^ bits) text c ∧ fault = stopFault c := by
  unfold strToUInt
  cases text with
  | nil =>
    have never : ¬ ∃ c, Stops radix.base (2 ^ bits) [] c ∧ fault = stopFault c :=
      fun ⟨_, stops, _⟩ => not_stopsFrom_nil stops
    simp [never, eq_comm]
  | cons first text =>
    simp only [List.isEmpty_cons, Bool.false_eq_true, if_false, List.cons_ne_nil, false_and, false_or]
    exact foldlM_strToUIntStep_stops radix wide _ (Nat.pow_pos (by decide)) other

theorem strToIntUnsigned_stops (radix : Radix) (bits : Nat) (text : List CharT) {fault : Fault}
    (other : ∀ what, fault ≠ .overflowError what) : strToIntUnsigned (some radix) bits text = .error fault ↔
      text = [] ∧ fault = .invalidArgument "Empty Str" ∨
        ∃ c, Stops radix.base (2 ^ 64) text c ∧ fault = stopFault c := by
  rw [← strToUInt_stops radix (by decide) text other]
  simp only [strToIntUnsigned, strToUInt0]
  cases outcome : strToUInt radix 64 text with
  | error fault => rfl
  | ok ret =>
    refine iff_of_false ?_ (by simp)
    simp only [bind, Except.bind]
    split
    · intro failed
      exact other _ (Except.error.inj failed).symm
    · simp

/-- The operations of one turn that the checks let happen stay in range: no shift, no
multiplication, no addition and no difference of the turn wraps around. -/
structure StepExact (radix : Radix) (bits ret v : Nat) : Prop where
  shifted : popcount radix.base = 1 → ret ≤ (2 ^ bits - 1) >>> countrZero radix.base →
    ret <<< countrZero radix.base < 2 ^ bits ∧ (ret <<< countrZero radix.base ||| v) < 2 ^ bits
  multiplied : popcount radix.base ≠ 1 → ret ≤ (2 ^ bits - 1) / radix.base →
    ret * radix.base < 2 ^ bits ∧ v ≤ 2 ^ bits - 1 ∧
      (ret * radix.base ≤ 2 ^ bits - 1 - v → ret * radix.base + v < 2 ^ bits)

theorem stepExact (radix : Radix) {bits : Nat} (wide : 8 ≤ bits) (ret : Nat) {v : Nat} (digit : v < radix.base) :
    StepExact radix bits ret v := by
  have large := radix.large
  have limit := radix.bounded
  have positive : 0 < 2 ^ bits := Nat.pow_pos (by decide)
  have base_fits : radix.base < 2 ^ bits := by
    have power : 2 ^ 8 ≤ 2 ^ bits := Nat.pow_le_pow_right (by decide) wide
    simp only [maxBase] at limit
    omega
  constructor
  · intro single checked
    obtain ⟨power, shift⟩ := countrZero_base radix.base (Nat.lt_succ_of_le radix.bounded) large single
    have below_shift : v < 2 ^ countrZero radix.base := power ▸ digit
    have divides : radix.base ∣ 2 ^ bits := by
      rw [power]
      exact Nat.pow_dvd_pow 2 (by omega)
    rw [Nat.shiftRight_eq_div_pow, ← power, Nat.le_div_iff_mul_le (by omega)] at checked
    rw [← Nat.shiftLeft_add_eq_or_of_lt below_shift, Nat.shiftLeft_eq, ← power]
    exact ⟨by omega, append_digit_lt digit divides (by omega)⟩
  · intro _ checked
    rw [Nat.le_div_iff_mul_le (by omega)] at checked
    exact ⟨by omega, by omega, by omega⟩

theorem turn_exact (radix : Radix) {front : List CharT} {ret v : Nat}
    (read : front.foldlM (strToUIntStep radix 64) 0 = .ok ret) (digit : v < radix.base) :
    ret < 2 ^ 64 ∧ StepExact radix 64 ret v := by
  have below := ((foldlM_strToUIntStep radix (by decide) front (Nat.pow_pos (by decide)) ret).mp read).2.2
  exact ⟨below, stepExact radix (by decide) ret digit⟩

theorem strToIntUnsigned_numeral_iff (radix : Radix) {bits : Nat} (narrow : bits ≤ 64) (text : List CharT) (n : Nat) :
    strToIntUnsigned (some radix) bits text = .ok n ↔
      IsNumeral radix.base text ∧ numeralValue radix.base text = n ∧ n ≤ 2 ^ bits - 1 := by
  rw [strToIntUnsigned_ok_iff radix narrow, Nat.le_sub_one_iff_lt (Nat.pow_pos (by decide))]

theorem strToIntUnsigned_invalid_iff (radix : Radix) (bits : Nat) {text : List CharT} (ascii : Ascii text) :
    (∃ what, strToIntUnsigned (some radix) bits text = .error (.invalidArgument what)) ↔
      text = [] ∨ ∃ c, Stops radix.base (2 ^ 64) text c := by
  have ascii_stop {c : CharT} (stops : Stops radix.base (2 ^ 64) text c) : c.toNat < 128 := by
    obtain ⟨digits, rest, rfl, _⟩ := stops
    exact ascii c (by simp)
  have failed (what : String) := strToIntUnsigned_stops radix bits text
    (show ∀ other, Fault.invalidArgument what ≠ .overflowError other by simp)
  constructor
  · rintro ⟨what, stopped⟩
    rcases (failed what).mp stopped with ⟨empty, _⟩ | ⟨c, stops, _⟩
    · exact .inl empty
    · exact .inr ⟨c, stops⟩
  · rintro (empty | ⟨c, stops⟩)
    · exact ⟨_, (failed _).mpr (.inl ⟨empty, rfl⟩)⟩
    · exact ⟨_, (failed _).mpr (.inr ⟨c, stops, stopFault_invalidArgument.mpr ⟨rfl, ascii_stop stops⟩⟩)⟩

theorem strToIntUnsigned_overflow_iff (radix : Radix) {bits : Nat} (narrow : bits ≤ 64) {text : List CharT}
    (ascii : Ascii text) :
    (∃ what, strToIntUnsigned (some radix) bits text = .error (.overflowError what)) ↔
      ¬ (IsNumeral radix.base text ∧ numeralValue radix.base text ≤ 2 ^ bits - 1) ∧ text ≠ [] ∧
        ¬ ∃ c, Stops radix.base (2 ^ 64) text c := by
  have accepted := strToIntUnsigned_numeral_iff radix narrow text
  have invalid := strToIntUnsigned_invalid_iff radix bits ascii
  rw [ne_eq, ← not_or, ← invalid]
  constructor
  · rintro ⟨what, overflow⟩
    refine ⟨?_, ?_⟩
    · rintro ⟨numeral, below⟩
      have read := (accepted _).mpr ⟨numeral, rfl, below⟩
      rw [overflow] at read
      cases read
    · rintro ⟨other, failed⟩
      rw [overflow] at failed
      cases failed
  · rintro ⟨large, goes_on⟩
    cases outcome : strToIntUnsigned (some radix) bits text with
    | ok n =>
      obtain ⟨numeral, rfl, below⟩ := (accepted n).mp outcome
      exact absurd ⟨numeral, below⟩ large
    | error fault =>
      have thrown := strToIntUnsigned_thrown radix ascii outcome
      cases fault with
      | invalidArgument what => exact absurd ⟨what, outcome⟩ goes_on
      | overflowError what => exact ⟨what, rfl⟩
      | outOfBounds => cases thrown

/-- Decoding is exact: the numerals of the values in range are read, whatever their case and
their leading zeros; an empty text and one with something else than a digit before the digits
leave the range of `uintptr_t` are invalid arguments, and the rest are overflows; and no turn
on the way wraps around. -/
theorem strToIntUnsigned_exact (radix : Radix) {bits : Nat} (narrow : bits ≤ 64) {text : List CharT}
    (ascii : Ascii text) :
    (∀ n, strToIntUnsigned (some radix) bits text = .ok n ↔
        IsNumeral radix.base text ∧ numeralValue radix.base text = n ∧ n ≤ 2 ^ bits - 1) ∧
      ((∃ what, strToIntUnsigned (some radix) bits text = .error (.invalidArgument what)) ↔
        text = [] ∨ ∃ c, Stops radix.base (2 ^ 64) text c) ∧
      ((∃ what, strToIntUnsigned (some radix) bits text = .error (.overflowError what)) ↔
        ¬ (IsNumeral radix.base text ∧ numeralValue radix.base text ≤ 2 ^ bits - 1) ∧ text ≠ [] ∧
          ¬ ∃ c, Stops radix.base (2 ^ 64) text c) ∧
      ∀ front c rest ret v, text = front ++ c :: rest → front.foldlM (strToUIntStep radix 64) 0 = .ok ret →
        digitValue c = some v → v < radix.base → ret < 2 ^ 64 ∧ StepExact radix 64 ret v := by
  refine ⟨strToIntUnsigned_numeral_iff radix narrow text, strToIntUnsigned_invalid_iff radix bits ascii,
    strToIntUnsigned_overflow_iff radix narrow ascii, ?_⟩
  intro front c rest ret v _ read _ digit
  exact turn_exact radix read digit

/-- Both letter cases and leading zeros, up to the largest byte. -/
theorem strToIntUnsigned_exact_byte : Ascii ("00fF".toList.map ch) ∧
    strToIntUnsigned (some hexadecimal) 8 ("00fF".toList.map ch) = .ok 255 := by
  have ascii : Ascii ("00fF".toList.map ch) := by decide +kernel
  have read := (strToIntUnsigned_exact hexadecimal (show 8 ≤ 64 by decide) ascii).1 255
  exact ⟨ascii, read.mpr ⟨by decide +kernel, by decide +kernel, by decide⟩⟩

end Stdplus.Numeric
