import Mathlib

namespace Stdplus.Base

open Nat (digits)

/-- The `width` lowest digits of a value. -/
def lowDigits (base width value : Nat) : List Nat :=
  (List.range width).map (fun place => value / base ^ place % base)

@[simp] theorem lowDigits_length (base width value : Nat) :
    (lowDigits base width value).length = width := by
  simp [lowDigits]

/-- A value below `base ^ width` has its own digits there, then zeros. -/
theorem lowDigits_eq_digits (base width value : Nat) (large : 1 < base)
    (small : value < base ^ width) :
    lowDigits base width value =
      digits base value ++ List.replicate (width - (digits base value).length) 0 := by
  have short : (digits base value).length ≤ width := (Nat.digits_length_le_iff large value).mpr small
  apply List.ext_getElem (by simp; omega)
  intro place left right
  have digit := Nat.getD_digits value place large
  simp only [lowDigits, List.getElem_map, List.getElem_range, ← digit]
  by_cases inside : place < (digits base value).length
  · simp [List.getElem_append_left inside, inside]
  · rw [List.getElem_append_right (by omega)]
    simp [List.getElem?_eq_none (Nat.le_of_not_lt inside)]

/-- The next value needs one more digit exactly when it is a power of the base. -/
theorem digits_length_lt_succ_iff {base : Nat} (value : Nat) (large : 1 < base) :
    (digits base value).length < (digits base (value + 1)).length ↔ ∃ k, base ^ k = value + 1 := by
  constructor
  · intro longer
    have below := Nat.lt_base_pow_length_digits (m := value) large
    have reached := (Nat.lt_digits_length_iff large (value + 1)).mp longer
    exact ⟨_, Nat.le_antisymm reached below⟩
  · rintro ⟨k, power⟩
    have short := (Nat.digits_length_le_iff (k := k) large value).mpr (by omega)
    have long := (Nat.lt_digits_length_iff (k := k) large (value + 1)).mpr (by omega)
    exact Nat.lt_of_le_of_lt short long

/-- The digits of a value padded with zeros to whole blocks of `size`, with one
block at least. -/
def blockDigits (base size value : Nat) : List Nat :=
  digits base value ++
    List.replicate (size * max 1 (((digits base value).length + size - 1) / size) -
      (digits base value).length) 0

theorem blockDigits_length (base size value : Nat) (positive : 0 < size) :
    (blockDigits base size value).length =
      size * max 1 (((digits base value).length + size - 1) / size) := by
  simp only [blockDigits, List.length_append, List.length_replicate]
  have enough : (digits base value).length ≤
      size * (((digits base value).length + size - 1) / size) := by
    have split := Nat.div_add_mod ((digits base value).length + size - 1) size
    have rest := Nat.mod_lt ((digits base value).length + size - 1) positive
    omega
  have grows : size * (((digits base value).length + size - 1) / size) ≤
      size * max 1 (((digits base value).length + size - 1) / size) :=
    Nat.mul_le_mul_left size (Nat.le_max_right _ _)
  omega

/-- Digits of a value above one block: the block, padded, then the digits above it. -/
theorem digits_block (base size value : Nat) (large : 1 < base) (more : 0 < value / base ^ size) :
    digits base value =
      lowDigits base size (value % base ^ size) ++ digits base (value / base ^ size) := by
  have small : value % base ^ size < base ^ size := Nat.mod_lt _ (Nat.pow_pos (by omega))
  have short := (Nat.digits_length_le_iff large (value % base ^ size)).mpr small
  rw [lowDigits_eq_digits base size _ large small,
    Nat.digits_append_zeroes_append_digits large more,
    Nat.add_sub_cancel' short, Nat.mod_add_div]

theorem blockDigits_step (base size value : Nat) (large : 1 < base) (positive : 0 < size) :
    blockDigits base size value = lowDigits base size (value % base ^ size) ++
      if 0 < value / base ^ size then blockDigits base size (value / base ^ size) else [] := by
  by_cases more : 0 < value / base ^ size
  · have above : 0 < (digits base (value / base ^ size)).length := by
      apply List.length_pos_of_ne_nil
      exact Nat.digits_ne_nil_iff_ne_zero.mpr (by omega)
    have length : (digits base value).length = size + (digits base (value / base ^ size)).length := by
      rw [digits_block base size value large more]
      simp
    have blocks : ((digits base value).length + size - 1) / size =
        1 + ((digits base (value / base ^ size)).length + size - 1) / size := by
      rw [length, ← Nat.add_div_right _ positive |>.trans (Nat.add_comm _ 1)]
      congr 1
      omega
    have one : 1 ≤ ((digits base (value / base ^ size)).length + size - 1) / size :=
      (Nat.one_le_div_iff positive).mpr (by omega)
    rw [if_pos more, blockDigits, blockDigits, blocks, length, digits_block base size value large more,
      List.append_assoc]
    congr 3
    rw [Nat.max_eq_right (by omega), Nat.max_eq_right one, Nat.mul_add]
    omega
  · have small : value < base ^ size := by
      have zero : value / base ^ size = 0 := Nat.eq_zero_of_not_pos more
      exact (Nat.div_eq_zero_iff_lt (Nat.pow_pos (by omega))).mp zero
    have short := (Nat.digits_length_le_iff large value).mpr small
    have blocks : ((digits base value).length + size - 1) / size ≤ 1 := by
      rw [← Nat.lt_succ_iff]
      exact (Nat.div_lt_iff_lt_mul positive).mpr (by omega)
    rw [if_neg more, List.append_nil, Nat.mod_eq_of_lt small,
      lowDigits_eq_digits base size value large small, blockDigits, Nat.max_eq_left blocks, Nat.mul_one]

/-- The digits of a value, at least `width` and at least one of them. -/
def paddedDigits (base width value : Nat) : List Nat :=
  digits base value ++ List.replicate (max width 1 - (digits base value).length) 0

theorem paddedDigits_length (base width value : Nat) :
    (paddedDigits base width value).length = max (digits base value).length (max width 1) := by
  simp only [paddedDigits, List.length_append, List.length_replicate]
  omega

theorem mem_paddedDigits_lt {base width value digit : Nat} (large : 1 < base)
    (member : digit ∈ paddedDigits base width value) : digit < base := by
  rcases List.mem_append.mp member with own | pad
  · exact Nat.digits_lt_base large own
  · rw [List.eq_of_mem_replicate pad]
    omega

theorem ofDigits_paddedDigits (base width value : Nat) :
    Nat.ofDigits base (paddedDigits base width value) = value := by
  simp [paddedDigits, Nat.ofDigits_append_replicate_zero, Nat.ofDigits_digits]

end Stdplus.Base
