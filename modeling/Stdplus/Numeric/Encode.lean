import Stdplus.Base.Confined
import Stdplus.Base.Digits

/-! Integer to text: `IntToStr` over `uintToStr`, with the tables, the loop that
stores the digits backwards, the trimming of the two-digit path, the padding and
the final reversal all on the caller's buffer. -/

namespace Stdplus.Numeric

open Stdplus.Base

/-- A `char` of the text, as its byte. -/
abbrev CharT := UInt8

/-- The byte of an ASCII character constant of the source. -/
def ch (c : Char) : CharT := UInt8.ofNat c.toNat

def maxBase : Nat := 36

/-- The bases `IntToStr` instantiates for. -/
structure Radix where
  base : Nat
  large : 1 < base
  bounded : base ≤ maxBase

def decimal : Radix := ⟨10, by decide, by decide⟩
def hexadecimal : Radix := ⟨16, by decide, by decide⟩

/-- `std::popcount` of a base, which is a `uint8_t`. -/
def popcount (base : Nat) : Nat := (List.range 8).countP base.testBit

/-- `std::countr_zero` of a `size_t`. -/
def countrZero (value : Nat) : Nat := (List.range 64).findIdx value.testBit

/-- Decimals are common enough and have slow division. -/
def multiIntSupport (base : Nat) : Nat := if base = 10 then 2 else 1

def singleIntTable (digit : Nat) : CharT :=
  if digit < 10 then ch '0' + UInt8.ofNat digit else ch 'a' + UInt8.ofNat (digit - 10)

/-- Entry `i * size + j` is digit `j` of `i`. -/
def multiIntTable (size base index : Nat) : CharT :=
  singleIntTable (index / size / base ^ (index % size) % base)

def intStrWrite (size base str v : Nat) (buffer : OutBuffer CharT) : OutBuffer CharT :=
  if 1 < size then
    buffer.copyTo str ((List.range size).map (fun j => multiIntTable size base (v * size + j)))
  else
    buffer.store str (singleIntTable v)

/-- The lowest `multi` digits of `v`, and `v` without them: by mask and shift for
a power of two, else by division. -/
def splitDigits (base multi v : Nat) : Nat × Nat :=
  let div := base ^ multi
  if popcount base = 1 then
    let shift := countrZero div
    let mask := 2 ^ shift - 1
    (v &&& mask, v >>> shift)
  else
    (v % div, v / div)

private theorem countrZero_power : ∀ base, base < 37 → 1 < base → popcount base = 1 →
    2 ^ countrZero (base ^ multiIntSupport base) = base ^ multiIntSupport base := by
  decide +kernel

theorem splitDigits_eq (radix : Radix) (v : Nat) :
    splitDigits radix.base (multiIntSupport radix.base) v =
      (v % radix.base ^ multiIntSupport radix.base, v / radix.base ^ multiIntSupport radix.base) := by
  unfold splitDigits
  split
  · rename_i single
    have power := countrZero_power radix.base (Nat.lt_succ_of_le radix.bounded) radix.large single
    have masked := Nat.and_two_pow_sub_one_eq_mod v
      (countrZero (radix.base ^ multiIntSupport radix.base))
    have shifted := Nat.shiftRight_eq_div_pow v
      (countrZero (radix.base ^ multiIntSupport radix.base))
    rw [power] at shifted
    exact Prod.ext (by simpa only [power] using masked) shifted
  · rfl

theorem multiIntSupport_pos (base : Nat) : 0 < multiIntSupport base := by
  unfold multiIntSupport
  split <;> decide

theorem splitDigits_lt (radix : Radix) (v : Nat)
    (more : 0 < (splitDigits radix.base (multiIntSupport radix.base) v).2) :
    (splitDigits radix.base (multiIntSupport radix.base) v).2 < v := by
  rw [splitDigits_eq] at more ⊢
  have positive : 0 < v := Nat.pos_of_ne_zero (by rintro rfl; simp at more)
  exact Nat.div_lt_self positive
    (Nat.one_lt_pow (Nat.ne_of_gt (multiIntSupport_pos radix.base)) radix.large)

/-- The `do`/`while` of `uintToStr`. The counter is a `uint8_t` there; a 64-bit
value gives 64 digits at most, so it does not wrap. -/
def uintToStrLoop (radix : Radix) (buf v i : Nat) (buffer : OutBuffer CharT) :
    Nat × OutBuffer CharT :=
  let multi := multiIntSupport radix.base
  let buffer := intStrWrite multi radix.base (buf + i) (splitDigits radix.base multi v).1 buffer
  if 0 < (splitDigits radix.base multi v).2 then
    uintToStrLoop radix buf (splitDigits radix.base multi v).2 (i + multi) buffer
  else
    (i + multi, buffer)
termination_by v
decreasing_by
  rename_i more
  exact splitDigits_lt radix v more

/-- `while (i > width && buf[i - 1] == '0') --i;` -/
def trimZeros (buffer : OutBuffer CharT) (buf width : Nat) : Nat → Nat
  | 0 => 0
  | i + 1 => if width < i + 1 ∧ buffer.mem (buf + i) = ch '0' then trimZeros buffer buf width i
      else i + 1

def uintToStr (radix : Radix) (v minWidth : Nat) : Writer CharT := fun buf buffer =>
  let (stored, buffer) := uintToStrLoop radix buf v 0 buffer
  let i := if 1 < multiIntSupport radix.base then trimZeros buffer buf (max minWidth 1) stored
    else stored
  let last := buf + max i minWidth
  (last, (buffer.fill (buf + i) last (ch '0')).reverse buf last)

/-- The numeral of a value, most significant digit first, at least `minWidth` long. -/
def numeral (radix : Radix) (v minWidth : Nat) : List CharT :=
  ((paddedDigits radix.base minWidth v).map singleIntTable).reverse

theorem singleIntTable_injective : ∀ first, first < maxBase → ∀ second, second < maxBase →
    singleIntTable first = singleIntTable second → first = second := by
  decide +kernel

theorem singleIntTable_zero_iff {digit : Nat} (small : digit < maxBase) :
    singleIntTable digit = ch '0' ↔ digit = 0 :=
  ⟨singleIntTable_injective digit small 0 (by decide), by rintro rfl; rfl⟩

private theorem intStrWrite_eq (radix : Radix) (str v : Nat) (buffer : OutBuffer CharT)
    (small : v < radix.base ^ multiIntSupport radix.base) :
    intStrWrite (multiIntSupport radix.base) radix.base str v buffer =
      buffer.copyTo str ((lowDigits radix.base (multiIntSupport radix.base) v).map singleIntTable) := by
  have positive := multiIntSupport_pos radix.base
  unfold intStrWrite
  split
  · congr 1
    simp only [lowDigits, List.map_map]
    apply List.map_congr_left
    intro place member
    have inside : place < multiIntSupport radix.base := by simpa using member
    simp only [multiIntTable, Function.comp_apply]
    rw [Nat.mul_comm, Nat.mul_add_div positive, Nat.div_eq_of_lt inside, Nat.mul_add_mod,
      Nat.mod_eq_of_lt inside, Nat.add_zero]
  · rename_i single
    have one : multiIntSupport radix.base = 1 := by omega
    have digit : v % radix.base = v := Nat.mod_eq_of_lt (by simpa [one] using small)
    simp [one, lowDigits, OutBuffer.copyTo, digit]

theorem uintToStrLoop_eq (radix : Radix) (buf v i : Nat) (buffer : OutBuffer CharT) :
    uintToStrLoop radix buf v i buffer =
      (i + (blockDigits radix.base (multiIntSupport radix.base) v).length,
        buffer.copyTo (buf + i)
          ((blockDigits radix.base (multiIntSupport radix.base) v).map singleIntTable)) := by
  induction v using Nat.strong_induction_on generalizing i buffer with
  | _ v ih =>
    have positive := multiIntSupport_pos radix.base
    have small : v % radix.base ^ multiIntSupport radix.base <
        radix.base ^ multiIntSupport radix.base := Nat.mod_lt _ (Nat.pow_pos (by have := radix.large; omega))
    rw [uintToStrLoop, blockDigits_step radix.base (multiIntSupport radix.base) v radix.large positive]
    split
    · rename_i more
      have smaller := splitDigits_lt radix v more
      rw [ih _ smaller]
      simp only [splitDigits_eq] at more ⊢
      rw [if_pos more, intStrWrite_eq radix _ _ _ small, List.length_append, List.map_append,
        OutBuffer.copyTo_append]
      simp [Nat.add_assoc]
    · rename_i done
      simp only [splitDigits_eq] at done ⊢
      rw [if_neg done, intStrWrite_eq radix _ _ _ small]
      simp

theorem trimZeros_spec (buffer : OutBuffer CharT) (buf width i : Nat) :
    trimZeros buffer buf width i ≤ i ∧ min i width ≤ trimZeros buffer buf width i ∧
      (∀ cell, trimZeros buffer buf width i ≤ cell → cell < i → buffer.mem (buf + cell) = ch '0') ∧
      (width < trimZeros buffer buf width i →
        buffer.mem (buf + (trimZeros buffer buf width i - 1)) ≠ ch '0') := by
  induction i with
  | zero => simp [trimZeros]
  | succ i ih =>
    unfold trimZeros
    split
    · rename_i dropped
      obtain ⟨upper, lower, zeros, kept⟩ := ih
      refine ⟨by omega, by omega, ?_, kept⟩
      intro cell above below
      rcases Nat.lt_succ_iff_lt_or_eq.mp below with earlier | same
      · exact zeros cell above earlier
      · rw [same]
        exact dropped.2
    · rename_i stopped
      refine ⟨Nat.le_refl _, Nat.min_le_left _ _, by omega, ?_⟩
      intro wide zero
      exact stopped ⟨wide, zero⟩

/-- How many stored digits stay: all significant ones, and no fewer than the
width asks for as far as they were stored. -/
private def keptDigits (radix : Radix) (v minWidth : Nat) : Nat :=
  max (Nat.digits radix.base v).length
    (min (blockDigits radix.base (multiIntSupport radix.base) v).length (max minWidth 1))

private theorem digits_length_le_blocks (radix : Radix) (v : Nat) :
    (Nat.digits radix.base v).length ≤
      (blockDigits radix.base (multiIntSupport radix.base) v).length := by
  simp [blockDigits]

private theorem keptDigits_le (radix : Radix) (v minWidth : Nat) : keptDigits radix v minWidth ≤
    ((blockDigits radix.base (multiIntSupport radix.base) v).map singleIntTable).length := by
  have short := digits_length_le_blocks radix v
  simp only [keptDigits, List.length_map]
  omega

private theorem blockDigits_digit (base size value place : Nat)
    (inside : place < (Nat.digits base value).length) :
    (blockDigits base size value)[place]? = (Nat.digits base value)[place]? := by
  simp [blockDigits, List.getElem?_append_left inside]

private theorem blockDigits_pad (base size value place : Nat)
    (above : (Nat.digits base value).length ≤ place)
    (inside : place < (blockDigits base size value).length) :
    (blockDigits base size value)[place]? = some 0 := by
  simp only [blockDigits, List.length_append, List.length_replicate] at inside
  simp only [blockDigits, List.getElem?_append_right above]
  exact List.getElem?_replicate_of_lt (by omega)

private theorem top_digit_pos (radix : Radix) (v : Nat) (some_digit : 0 < (Nat.digits radix.base v).length) :
    ∃ digit, (Nat.digits radix.base v)[(Nat.digits radix.base v).length - 1]? = some digit ∧
      digit ≠ 0 := by
  have nonzero : v ≠ 0 := by rintro rfl; simp at some_digit
  have top := Nat.getLast_digit_ne_zero radix.base nonzero
  refine ⟨_, ?_, top⟩
  rw [List.getLast_eq_getElem]
  exact List.getElem?_eq_getElem (by omega)

private theorem trimZeros_eq (radix : Radix) (v minWidth buf : Nat) (buffer : OutBuffer CharT) :
    trimZeros (buffer.copyTo buf
        ((blockDigits radix.base (multiIntSupport radix.base) v).map singleIntTable)) buf
      (max minWidth 1) (blockDigits radix.base (multiIntSupport radix.base) v).length =
      keptDigits radix v minWidth := by
  have short := digits_length_le_blocks radix v
  have cell (place digit : Nat)
      (at_place : (blockDigits radix.base (multiIntSupport radix.base) v)[place]? = some digit) :
      (buffer.copyTo buf
        ((blockDigits radix.base (multiIntSupport radix.base) v).map singleIntTable)).mem (buf + place) =
        singleIntTable digit := by
    obtain ⟨inside, value⟩ := List.getElem?_eq_some_iff.mp at_place
    rw [OutBuffer.copyTo_inside _ _ _ _ (by simpa using inside)]
    simp [value]
  obtain ⟨upper, lower, zeros, kept⟩ := trimZeros_spec (buffer.copyTo buf
      ((blockDigits radix.base (multiIntSupport radix.base) v).map singleIntTable)) buf
    (max minWidth 1) (blockDigits radix.base (multiIntSupport radix.base) v).length
  generalize trimZeros _ buf _ _ = stop at upper lower zeros kept ⊢
  have significant : (Nat.digits radix.base v).length ≤ stop := by
    by_contra cut
    obtain ⟨digit, at_top, nonzero⟩ := top_digit_pos radix v (by omega)
    have stored := cell ((Nat.digits radix.base v).length - 1) digit (by
      rw [blockDigits_digit _ _ _ _ (by omega), at_top])
    have dropped := zeros ((Nat.digits radix.base v).length - 1) (by omega) (by omega)
    have bounded := Nat.digits_lt_base radix.large (List.mem_of_getElem? at_top)
    have limit := radix.bounded
    exact nonzero ((singleIntTable_zero_iff (by omega)).mp (stored.symm.trans dropped))
  have tight : stop ≤ max (Nat.digits radix.base v).length (max minWidth 1) := by
    by_contra beyond
    have padded := cell (stop - 1) 0 (blockDigits_pad _ _ _ _ (by omega) (by omega))
    exact kept (by omega) padded
  simp only [keptDigits]
  omega

private theorem kept_content (radix : Radix) (v minWidth : Nat) :
    ((blockDigits radix.base (multiIntSupport radix.base) v).map singleIntTable).take
        (keptDigits radix v minWidth) ++
      List.replicate (max (keptDigits radix v minWidth) minWidth - keptDigits radix v minWidth) (ch '0') =
    (paddedDigits radix.base minWidth v).map singleIntTable := by
  have short := digits_length_le_blocks radix v
  have positive := multiIntSupport_pos radix.base
  have one : 1 ≤ (blockDigits radix.base (multiIntSupport radix.base) v).length := by
    rw [blockDigits_length _ _ _ positive]
    exact Nat.mul_pos positive (by omega)
  have zero : singleIntTable 0 = ch '0' := rfl
  rw [blockDigits, paddedDigits, List.map_append, List.map_append, List.map_replicate,
    List.map_replicate, zero, List.take_append, List.take_of_length_le (by simp [keptDigits]),
    List.append_assoc, List.take_replicate, List.replicate_append_replicate]
  simp only [blockDigits, List.length_append, List.length_replicate] at one
  congr 2
  simp only [keptDigits, blockDigits, List.length_append, List.length_replicate, List.length_map]
  omega

private theorem uintToStr_eq (radix : Radix) (v minWidth buf : Nat) (buffer : OutBuffer CharT) :
    uintToStr radix v minWidth buf buffer =
      Writer.backwards ((blockDigits radix.base (multiIntSupport radix.base) v).map singleIntTable)
        (keptDigits radix v minWidth) minWidth (ch '0') buf buffer := by
  have positive := multiIntSupport_pos radix.base
  simp only [uintToStr, uintToStrLoop_eq, Nat.zero_add, Nat.add_zero]
  have kept : (if 1 < multiIntSupport radix.base then
      trimZeros (buffer.copyTo buf
        ((blockDigits radix.base (multiIntSupport radix.base) v).map singleIntTable)) buf
        (max minWidth 1) (blockDigits radix.base (multiIntSupport radix.base) v).length
      else (blockDigits radix.base (multiIntSupport radix.base) v).length) =
      keptDigits radix v minWidth := by
    split
    · exact trimZeros_eq radix v minWidth buf buffer
    · have single : multiIntSupport radix.base = 1 := by omega
      have length := blockDigits_length radix.base 1 v (by decide)
      simp only [keptDigits, single, length]
      omega
  rw [kept]
  rfl

/-- `uintToStr` writes the numeral of its value; the digits are stored in whole
blocks first, so it may reach past the numeral. -/
theorem uintToStr_emits (radix : Radix) (v minWidth : Nat) :
    Emits (uintToStr radix v minWidth) (numeral radix v minWidth)
      (max (blockDigits radix.base (multiIntSupport radix.base) v).length minWidth) := by
  have emits := (Emits.backwards _ _ minWidth (ch '0') (keptDigits_le radix v minWidth)).congr
    (uintToStr_eq radix v minWidth)
  rw [kept_content, List.length_map] at emits
  exact emits

theorem uintToStr_confined (radix : Radix) (v minWidth : Nat) :
    Confined (uintToStr radix v minWidth) (numeral radix v minWidth).length
      (max (blockDigits radix.base (multiIntSupport radix.base) v).length minWidth) := by
  have confined := (Confined.backwards _ _ minWidth (ch '0') (keptDigits_le radix v minWidth)).congr
    (uintToStr_eq radix v minWidth)
  rw [List.length_map] at confined
  exact confined.of_emits (uintToStr_emits radix v minWidth)

theorem numeral_length (radix : Radix) (v minWidth : Nat) :
    (numeral radix v minWidth).length = max (Nat.digits radix.base v).length (max minWidth 1) := by
  rw [numeral, List.length_reverse, List.length_map, paddedDigits_length]

private theorem singleIntTable_digitChar : ∀ digit, digit < 16 → singleIntTable digit = ch digit.digitChar := by
  decide +kernel

theorem paddedDigits_step {base value : Nat} (large : 1 < base) (more : base ≤ value) :
    paddedDigits base 0 value = value % base :: paddedDigits base 0 (value / base) := by
  have above : 0 < value / base := (Nat.one_le_div_iff (by omega)).mpr more
  have digit : 0 < (Nat.digits base (value / base)).length :=
    List.length_pos_of_ne_nil (Nat.digits_ne_nil_iff_ne_zero.mpr (by omega))
  have none_more : max 0 1 - (Nat.digits base (value / base)).length = 0 := by omega
  rw [paddedDigits, paddedDigits, Nat.digits_def' large (by omega), List.length_cons, none_more,
    Nat.sub_eq_zero_of_le (by omega)]
  rfl

/-- Without padding it is the usual numeral, in lower case and with no zeros in front. -/
theorem numeral_toDigits (radix : Radix) (letters : radix.base ≤ 16) (v : Nat) :
    numeral radix v 0 = (Nat.toDigits radix.base v).map ch := by
  have large := radix.large
  induction v using Nat.strong_induction_on with
  | _ v ih =>
    by_cases single : v < radix.base
    · have digit : paddedDigits radix.base 0 v = [v] := by
        by_cases zero : v = 0
        · simp [zero, paddedDigits]
        · rw [paddedDigits, Nat.digits_of_lt radix.base v zero single]
          rfl
      rw [Nat.toDigits_of_lt_base single, numeral, digit]
      exact congrArg (fun c => [c]) (singleIntTable_digitChar v (by omega))
    · have more := Nat.le_of_not_lt single
      have front := ih (v / radix.base) (Nat.div_lt_self (by omega) large)
      have last : v % radix.base < 16 := Nat.lt_of_lt_of_le (Nat.mod_lt v (by omega)) letters
      rw [Nat.toDigits_of_base_le large more, numeral, paddedDigits_step large more, List.map_cons,
        List.reverse_cons, List.map_append, ← front, singleIntTable_digitChar _ last]
      rfl

/-- Cells stored while a decimal value without padding is written: whole pairs. -/
def decimalReach (v : Nat) : Nat := 2 * max 1 (((Nat.digits 10 v).length + 1) / 2)

theorem decimal_emits (v : Nat) :
    Emits (uintToStr decimal v 0) (numeral decimal v 0) (decimalReach v) := by
  have emits := uintToStr_emits decimal v 0
  have length := blockDigits_length 10 2 v (by decide)
  rw [Nat.max_zero] at emits
  change Emits _ _ (blockDigits 10 2 v).length at emits
  rw [length] at emits
  exact emits

theorem hexadecimal_emits (v : Nat) :
    Emits (uintToStr hexadecimal v 0) (numeral hexadecimal v 0) (numeral hexadecimal v 0).length := by
  have emits := uintToStr_emits hexadecimal v 0
  have length := blockDigits_length 16 1 v (by decide)
  rw [Nat.max_zero] at emits
  change Emits _ _ (blockDigits 16 1 v).length at emits
  have same : (numeral hexadecimal v 0).length = (blockDigits 16 1 v).length := by
    rw [numeral_length, length]
    change max (Nat.digits 16 v).length (max 0 1) = _
    omega
  rw [← same] at emits
  exact emits

theorem numeral_length_le (radix : Radix) {v : Nat} (places : Nat) (some_place : 0 < places)
    (small : v < radix.base ^ places) : (numeral radix v 0).length ≤ places := by
  have short := (Nat.digits_length_le_iff radix.large v).mpr small
  rw [numeral_length]
  omega

theorem lt_numeral_length (radix : Radix) {v : Nat} (places : Nat) (large : radix.base ^ places ≤ v) :
    places < (numeral radix v 0).length := by
  have long := (Nat.lt_digits_length_iff radix.large v).mpr large
  rw [numeral_length]
  omega

theorem decimalReach_le {v : Nat} (pairs : Nat) (some_pair : 0 < pairs) (small : v < 100 ^ pairs) :
    decimalReach v ≤ 2 * pairs := by
  have power : 100 ^ pairs = 10 ^ (2 * pairs) := by rw [Nat.pow_mul]
  have short := (Nat.digits_length_le_iff (b := 10) (by decide) v).mpr (power ▸ small)
  unfold decimalReach
  omega

theorem lt_decimalReach {v : Nat} (pairs : Nat) (large : 100 ^ pairs ≤ v) :
    2 * pairs + 2 ≤ decimalReach v := by
  have power : 100 ^ pairs = 10 ^ (2 * pairs) := by rw [Nat.pow_mul]
  have long := (Nat.lt_digits_length_iff (b := 10) (by decide) v).mpr (power ▸ large)
  unfold decimalReach
  omega

/-- Divide until nothing is left, counting the turns. -/
def bufSizeLoop (radix : Radix) (v i : Nat) : Nat :=
  if 0 < v then bufSizeLoop radix (v / radix.base) (i + 1) else i
termination_by v
decreasing_by exact Nat.div_lt_self (by assumption) radix.large

/-- `IntToStr::buf_size` for a type whose greatest value is `max`. -/
def intToStrBufSize (radix : Radix) (max : Nat) (isSigned : Bool) : Nat :=
  let div := multiIntSupport radix.base
  (bufSizeLoop radix max 0 + div - 1) / div * div + isSigned.toNat

end Stdplus.Numeric
