import Stdplus.Numeric.SignedDecode

namespace Stdplus.Numeric

open Stdplus.Base

/-- What is written, into whatever buffer, reads back as the value. -/
def Survives (written : Option (Writer CharT)) (read : List CharT → Except Fault Int) (v : Int) : Prop :=
  ∃ writer, written = some writer ∧ ∀ mem, read (writer.shown mem) = .ok v

section

variable {host : Host} {radix : Radix} {T : IntType} {reader : Option Radix} {m minWidth : Nat}

theorem StrToInt.call_magnitude {text : List CharT} (written : Written reader text m) (contains : T.Contains m) :
    StrToInt.call host reader T text = .ok m := by
  by_cases signed : T.isSigned
  · exact (StrToInt.call_positive host signed written).1 contains
  · have unsigned : T.isSigned = false := Bool.eq_false_of_not_eq_true signed
    have wider := host.bits_le_work T
    have power : 2 ^ T.bits ≤ 2 ^ (host.work T).bits := Nat.pow_le_pow_right (by decide) wider
    have below := contains.lt
    apply StrToInt.call_ok contains
    have same : (host.work T).isSigned = false := by
      unfold Host.work
      split <;> exact unsigned
    rw [strToInt, if_pos (by simp [same]), strToUInt0_written reader (host.work T).bits_wide written,
      if_pos (by omega)]
    rfl

variable (reads : ∀ m, Written reader (numeral radix m minWidth) m)

include reads

private theorem survives_positive (contains : T.Contains m) :
    Survives (IntToStr.call host radix T m minWidth) (StrToInt.call host reader T) m := by
  refine ⟨_, IntToStr.call_positive host radix minWidth contains, fun mem => ?_⟩
  rw [(uintToStr_emits radix m minWidth).shown mem]
  exact StrToInt.call_magnitude (reads m) contains

private theorem survives_negative (signed : T.isSigned) (positive : 0 < m) (contains : T.Contains (-m)) :
    Survives (IntToStr.call host radix T (-m) minWidth) (StrToInt.call host reader T) (-m) ↔
      ¬ host.Least T (-m) := by
  have small := (IntType.contains_negative signed m).mp contains
  have wider := host.bits_le_work T
  have power : 2 ^ (T.bits - 1) ≤ 2 ^ ((host.work T).bits - 1) := Nat.pow_le_pow_right (by decide) (by omega)
  have least := IntType.min_signed (host.work_signed signed)
  have written := IntToStr.call_negative host radix minWidth signed positive contains
  have read := StrToInt.call_negative host signed (reads m)
  have shown (mem : Nat → CharT) : ((Writer.put (ch '-')).seq (uintToStr radix m minWidth)).shown mem =
      ch '-' :: numeral radix m minWidth := ((Emits.put (ch '-')).seq (uintToStr_emits radix m minWidth)).shown mem
  rw [host.least_iff signed contains]
  constructor
  · rintro ⟨writer, emitted, back⟩ value
    rw [written] at emitted
    split at emitted
    · cases emitted
      have returned := back fun _ => 0
      rw [shown, read, if_neg (by omega)] at returned
      cases returned
    · cases emitted
  · intro above
    rw [if_pos (.inr above)] at written
    refine ⟨_, written, fun mem => ?_⟩
    rw [shown, read, if_pos (by omega), IntType.cast_of_contains contains]

private theorem survives_iff {v : Int} (contains : T.Contains v) :
    Survives (IntToStr.call host radix T v minWidth) (StrToInt.call host reader T) v ↔ ¬ host.Least T v := by
  rcases contains.sign with ⟨m, rfl⟩ | ⟨signed, m, positive, rfl⟩
  · refine iff_of_true (survives_positive reads contains) ?_
    rintro ⟨signed, _, least⟩
    rw [IntType.min_signed signed] at least
    have power : 0 < 2 ^ (T.bits - 1) := Nat.pow_pos (by decide)
    omega
  · exact survives_negative reads signed positive contains

end

/-- Integers survive text in every base and at every width, but for the least value of a
type that is no smaller than a pointer. -/
theorem integers_survive_iff (host : Host) (radix : Radix) (T : IntType) (v : Int) (contains : T.Contains v)
    (minWidth : Nat) :
    (Survives (IntToStr.call host radix T v minWidth) (StrToInt.call host (some radix) T) v ↔ ¬ host.Least T v) ∧
      (Survives (ToStr.call host T v) (FromStr.call host T) v ↔ ¬ host.Least T v) := by
  have same (m : Nat) : Written (some radix) (numeral radix m minWidth) m :=
    ⟨numeral_isNumeral radix m minWidth, numeralValue_numeral radix m minWidth⟩
  have plain (m : Nat) : Written none (numeral decimal m 0) m :=
    Or.inr ⟨numeral_isNumeral decimal m 0, numeralValue_numeral decimal m 0⟩
  exact ⟨survives_iff same contains, survives_iff plain contains⟩

theorem integers_survive_least_byte :
    Survives (IntToStr.call Host.wide hexadecimal IntType.int8 (-128) 3)
        (StrToInt.call Host.wide (some hexadecimal) IntType.int8) (-128) ∧
      Survives (ToStr.call Host.wide IntType.int8 (-128)) (FromStr.call Host.wide IntType.int8) (-128) := by
  have survive := integers_survive_iff Host.wide hexadecimal IntType.int8 (-128) (by decide) 3
  have room : ¬ Host.wide.Least IntType.int8 (-128) := fun least => absurd least.2.1 (by decide)
  exact ⟨survive.1.mpr room, survive.2.mpr room⟩

/-- The least value of 64 bits is written, but read back as an overflow. -/
theorem least_value_overflows : ∃ writer, ToStr.call Host.wide IntType.int64 IntType.int64.min = some writer ∧
    ∀ mem, writer.shown mem = "-9223372036854775808".toList.map ch ∧
      FromStr.call Host.wide IntType.int64 (writer.shown mem) =
        .error (.overflowError "Integer Decode Overflow") := by
  refine ⟨(Writer.put (ch '-')).seq (uintToStr decimal (2 ^ 63) 0), ?_, fun mem => ?_⟩
  · exact IntToStr.call_negative Host.wide decimal 0 rfl (by decide) (by decide)
  · have shown := ((Emits.put (ch '-')).seq (uintToStr_emits decimal (2 ^ 63) 0)).shown mem
    have text : [ch '-'] ++ numeral decimal (2 ^ 63) 0 = "-9223372036854775808".toList.map ch := by decide +kernel
    rw [shown, text]
    exact ⟨rfl, by decide +kernel⟩

end Stdplus.Numeric
