import Stdplus.Numeric.Integral

namespace Stdplus.Numeric

/-- Texts of integers in range give them and those of other integers overflow; every other
text is rejected. -/
structure Exact (host : Host) (T : IntType) (radix : Option Radix) (text : List CharT) : Prop where
  inside : ∀ n, Denotes radix text n → T.Contains n → StrToInt.call host radix T text = .ok n
  outside : ∀ n, Denotes radix text n → ¬ T.Contains n →
    ∃ what, StrToInt.call host radix T text = .error (.overflowError what)
  other : (¬ ∃ n, Denotes radix text n) → ∃ fault, StrToInt.call host radix T text = .error fault ∧ fault.Thrown

/-- A negative number that only the narrowing notices, or that only the sign brings into range. -/
def Slips (host : Host) (T : IntType) (radix : Option Radix) (text : List CharT) : Prop :=
  ∃ digits m, text = ch '-' :: digits ∧ Written radix digits m ∧
    if T.bits < (host.work T).bits then 2 ^ (T.bits - 1) < m ∧ m < 2 ^ ((host.work T).bits - 1)
    else m = 2 ^ (T.bits - 1)

section

variable {T : IntType} {radix : Option Radix} {text digits : List CharT} {m : Nat}

private theorem signed_magnitude (signed : T.isSigned) (isNeg : Bool) (starts : [ch '-'].isPrefixOf text = isNeg)
    (written : Written radix (text.drop isNeg.toNat) m) : strToInt radix T text =
      if m < 2 ^ (T.bits - 1) then .ok (if isNeg then -m else m)
      else .error (.overflowError "Integer Decode Overflow") := by
  have wide := T.bits_wide
  have below : 2 ^ (T.bits - 1) ≤ 2 ^ T.bits := Nat.pow_le_pow_right (by decide) (Nat.sub_le _ _)
  rw [strToInt, if_neg (not_not.mpr signed), starts]
  simp only [strToUInt0_written radix wide written, IntType.max_signed signed]
  by_cases unsigned : m < 2 ^ T.bits
  · rw [if_pos unsigned]
    simp only [bind, Except.bind]
    by_cases small : m < 2 ^ (T.bits - 1)
    · rw [if_pos small, if_neg (by omega)]
    · rw [if_neg small, if_pos (by omega)]
  · rw [if_neg unsigned, if_neg (by omega)]
    rfl

theorem strToInt_positive (signed : T.isSigned) (written : Written radix text m) : strToInt radix T text =
    if m < 2 ^ (T.bits - 1) then .ok m else .error (.overflowError "Integer Decode Overflow") :=
  signed_magnitude signed false written.unsigned written

theorem strToInt_negative (signed : T.isSigned) (written : Written radix digits m) :
    strToInt radix T (ch '-' :: digits) =
      if m < 2 ^ (T.bits - 1) then .ok (-m) else .error (.overflowError "Integer Decode Overflow") :=
  signed_magnitude signed true rfl written

theorem strToInt_other (signed : T.isSigned) (ascii : Ascii text) (other : ¬ ∃ n, Denotes radix text n) :
    ∃ fault, strToInt radix T text = .error fault ∧ fault.Thrown := by
  rw [strToInt, if_neg (not_not.mpr signed)]
  have unwritten : ¬ ∃ m, Written radix (text.drop ([ch '-'].isPrefixOf text).toNat) m := by
    rintro ⟨m, written⟩
    cases starts : [ch '-'].isPrefixOf text with
    | false =>
      rw [starts] at written
      exact other ⟨m, m, .inl ⟨written, rfl⟩⟩
    | true =>
      obtain ⟨digits, rfl⟩ := List.isPrefixOf_iff_prefix.mp starts
      exact other ⟨-m, m, .inr ⟨digits, rfl, written, rfl⟩⟩
  obtain ⟨fault, failed, thrown⟩ := strToUInt0_other radix T.bits_wide (ascii.drop _) unwritten
  refine ⟨fault, ?_, thrown⟩
  simp only [failed]
  rfl

end

section

variable {host : Host} {T : IntType} {radix : Option Radix} {text digits : List CharT} {m : Nat}

/-- What is in front of the narrowing fits the larger type; what is behind it fits this one. -/
theorem StrToInt.call_ok {v : Int} (contains : T.Contains v) (decoded : strToInt radix (host.work T) text = .ok v) :
    StrToInt.call host radix T text = .ok v := by
  rw [StrToInt.call, decoded]
  simp only [bind, Except.bind]
  rw [if_neg (Int.not_lt.mpr contains.2), IntType.cast_of_contains contains]

theorem StrToInt.call_error {fault : Fault} (failed : strToInt radix (host.work T) text = .error fault) :
    StrToInt.call host radix T text = .error fault := by
  rw [StrToInt.call, failed]
  rfl

theorem StrToInt.call_positive (host : Host) (signed : T.isSigned) (written : Written radix text m) :
    (T.Contains m → StrToInt.call host radix T text = .ok m) ∧
      (¬ T.Contains m → ∃ what, StrToInt.call host radix T text = .error (.overflowError what)) := by
  have decoded := strToInt_positive (host.work_signed signed) written
  have wider := host.bits_le_work T
  have power : 2 ^ (T.bits - 1) ≤ 2 ^ ((host.work T).bits - 1) := Nat.pow_le_pow_right (by decide) (by omega)
  constructor
  · intro contains
    have small := (IntType.contains_positive signed m).mp contains
    rw [if_pos (by omega)] at decoded
    exact StrToInt.call_ok contains decoded
  · intro beyond
    have large := mt (IntType.contains_positive signed m).mpr beyond
    by_cases fits : m < 2 ^ ((host.work T).bits - 1)
    · rw [if_pos fits] at decoded
      refine ⟨"Integer Decode", ?_⟩
      rw [StrToInt.call, decoded]
      simp only [bind, Except.bind, IntType.max_signed signed]
      rw [if_pos (by omega)]
    · rw [if_neg fits] at decoded
      exact ⟨_, StrToInt.call_error decoded⟩

/-- A negative number that fits the larger type passes the narrowing, in range or not. -/
theorem StrToInt.call_negative (host : Host) (signed : T.isSigned) (written : Written radix digits m) :
    StrToInt.call host radix T (ch '-' :: digits) = if m < 2 ^ ((host.work T).bits - 1) then .ok (T.cast (-m))
      else .error (.overflowError "Integer Decode Overflow") := by
  have decoded := strToInt_negative (host.work_signed signed) written
  have positive : 0 < 2 ^ (T.bits - 1) := Nat.pow_pos (by decide)
  split at decoded
  · rename_i fits
    rw [if_pos fits, StrToInt.call, decoded]
    simp only [bind, Except.bind, IntType.max_signed signed]
    rw [if_neg (by omega)]
  · rename_i beyond
    rw [if_neg beyond]
    exact StrToInt.call_error decoded

private theorem exact_of_not_slips (signed : T.isSigned) (ascii : Ascii text)
    (holds : ¬ Slips host T radix text) : Exact host T radix text := by
  have wider := host.bits_le_work T
  refine ⟨?_, ?_, ?_⟩
  · rintro n ⟨m, ⟨written, rfl⟩ | ⟨digits, rfl, written, rfl⟩⟩ contains
    · exact (StrToInt.call_positive host signed written).1 contains
    · have small := (IntType.contains_negative signed m).mp contains
      rw [StrToInt.call_negative host signed written, if_pos, IntType.cast_of_contains contains]
      by_contra beyond
      refine holds ⟨digits, m, rfl, written, ?_⟩
      split
      · rename_i narrower
        have power : 2 ^ (T.bits - 1) < 2 ^ ((host.work T).bits - 1) :=
          Nat.pow_lt_pow_right (by decide) (by have wide := T.bits_wide; omega)
        omega
      · rename_i same
        have equal : (host.work T).bits = T.bits := by omega
        rw [equal] at beyond
        omega
  · rintro n ⟨m, ⟨written, rfl⟩ | ⟨digits, rfl, written, rfl⟩⟩ beyond
    · exact (StrToInt.call_positive host signed written).2 beyond
    · have large := mt (IntType.contains_negative signed m).mpr beyond
      refine ⟨"Integer Decode Overflow", ?_⟩
      rw [StrToInt.call_negative host signed written, if_neg]
      intro fits
      refine holds ⟨digits, m, rfl, written, ?_⟩
      split
      · omega
      · rename_i same
        have equal : (host.work T).bits = T.bits := by omega
        rw [equal] at fits
        omega
  · intro other
    obtain ⟨fault, failed, thrown⟩ := strToInt_other (host.work_signed signed) ascii other
    exact ⟨fault, StrToInt.call_error failed, thrown⟩

private theorem not_slips_of_exact (signed : T.isSigned) (exactly : Exact host T radix text) :
    ¬ Slips host T radix text := by
  rintro ⟨digits, m, rfl, written, place⟩
  have denotes : Denotes radix (ch '-' :: digits) (-m) := ⟨m, .inr ⟨digits, rfl, written, rfl⟩⟩
  have outcome := StrToInt.call_negative host signed written
  have wider := host.bits_le_work T
  split at place
  · rw [if_pos place.2] at outcome
    have beyond : ¬ T.Contains (-m) := by
      rw [IntType.contains_negative signed m]
      omega
    obtain ⟨what, failed⟩ := exactly.outside (-m) denotes beyond
    rw [outcome] at failed
    cases failed
  · have equal : (host.work T).bits = T.bits := by omega
    rw [equal, if_neg (by omega)] at outcome
    have returned := exactly.inside (-m) denotes ((IntType.contains_negative signed m).mpr (by omega))
    rw [outcome] at returned
    cases returned

end

/-- Signed decoding is exact but for the negative numbers below the range that still fit
the larger type, or for the least one where there is no larger type. -/
theorem signed_exact_iff (host : Host) (T : IntType) (signed : T.isSigned) (radix : Option Radix)
    (text : List CharT) (ascii : Ascii text) : Exact host T radix text ↔ ¬ Slips host T radix text :=
  ⟨not_slips_of_exact signed, exact_of_not_slips signed ascii⟩

theorem signed_exact_least : Exact Host.wide IntType.int8 (some decimal) ("-128".toList.map ch) := by
  refine (signed_exact_iff Host.wide IntType.int8 rfl (some decimal) _ (by decide +kernel)).mpr ?_
  rintro ⟨digits, m, same, ⟨_, rfl⟩, below, _⟩
  obtain rfl : digits = "128".toList.map ch := (List.cons.inj same).2.symm
  exact absurd below (by decide)

/-- One below the least value comes back as the greatest. -/
theorem signed_decodes_wrapped : Denotes (some decimal) ("-129".toList.map ch) (-129) ∧
    ¬ IntType.int8.Contains (-129) ∧
    StrToInt.call Host.wide (some decimal) IntType.int8 ("-129".toList.map ch) = .ok 127 := by
  have written : Written (some decimal) ("129".toList.map ch) 129 := ⟨by decide +kernel, by decide +kernel⟩
  exact ⟨⟨129, .inr ⟨_, rfl, written, rfl⟩⟩, by decide, by decide +kernel⟩

end Stdplus.Numeric
